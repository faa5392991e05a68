import Phy6212.Ota.Session

/-!
# Which packet is programmed where

What is programmed in slot `k` should be a packet that the client has sent as number `k`, with the
right length and CRC (`Placed`).
-/

namespace Phy6212.Ota

open Misc Runs

def slotLength (firmwareSize packetSize k : Nat) : Nat :=
  min packetSize (firmwareSize - k * packetSize)

/-- What is programmed is the payload of the packet with the number of the slot; it
has the length of the slot, and the CRC in the header is right. -/
def Placed (before : List Note) (offset : Nat) (data : List UInt8) : Prop :=
  ∃ firmwareSize packetSize k crc stream,
    announced before = some (firmwareSize, packetSize) ∧ offset = k * packetSize ∧
    Sends before k crc stream ∧ data <+: stream ∧
    data.length = slotLength firmwareSize packetSize k ∧ (crc16 0 data).toNat = crc

def AllPlaced (trace : List Note) : Prop :=
  ∀ before offset data works after,
    trace = before ++ .programmed offset data works :: after → Placed before offset data

variable {trace : List Note}

theorem AllPlaced.note (placed : AllPlaced trace) {n : Note} (other : n.offset? = none) :
    AllPlaced (trace ++ [n]) := by
  intro before offset data works after split
  rcases append_singleton_eq split with ⟨-, rfl⟩ | ⟨rest, earlier⟩
  · cases other
  · exact placed before offset data works rest earlier

theorem AllPlaced.notes (placed : AllPlaced trace) {notes : List Note}
    (others : ∀ n ∈ notes, n.offset? = none) : AllPlaced (trace ++ notes) :=
  append_induction placed fun _ n member before => before.note (others n member)

theorem AllPlaced.programmed (placed : AllPlaced trace) {offset : Nat} {data : List UInt8}
    (works : Bool) (here : Placed trace offset data) :
    AllPlaced (trace ++ [.programmed offset data works]) := by
  intro before offset' data' works' after split
  rcases append_singleton_eq split with ⟨rfl, programmed⟩ | ⟨rest, earlier⟩
  · cases programmed
    exact here
  · exact placed before offset' data' works' rest earlier

/-- The count of packets survives the 16 bits, or what becomes of it does no harm:
there is no shorter packet, or no packet is accepted at all. -/
def CountKept (firmwareSize packetSize : Nat) : Prop :=
  packetCount firmwareSize packetSize < 2 ^ 16 ∨ firmwareSize % packetSize = 0 ∨
    packetCount firmwareSize packetSize % 2 ^ 16 = 0

variable {k packetSize firmwareSize : Nat}

section

variable (positive : 0 < packetSize)

include positive

theorem lt_packetCount :
    k < packetCount firmwareSize packetSize ↔ k * packetSize < firmwareSize := by
  unfold packetCount
  rw [Nat.lt_iff_add_one_le, Nat.le_div_iff_mul_le positive, Nat.add_mul, Nat.one_mul]
  omega

theorem firmware_le {count : Nat} (enough : packetCount firmwareSize packetSize ≤ count) :
    firmwareSize ≤ count * packetSize :=
  Nat.le_of_not_lt fun more =>
    Nat.lt_irrefl _ (Nat.lt_of_lt_of_le ((lt_packetCount positive).mpr more) enough)

theorem slotLength_full (more : k + 1 < packetCount firmwareSize packetSize) :
    slotLength firmwareSize packetSize k = packetSize := by
  have next := (lt_packetCount positive).mp more
  rw [Nat.add_mul, Nat.one_mul] at next
  unfold slotLength
  omega

theorem slotLength_last (last : k + 1 = packetCount firmwareSize packetSize)
    (remainder : firmwareSize % packetSize ≠ 0) :
    slotLength firmwareSize packetSize k = firmwareSize % packetSize := by
  have inside : k * packetSize < firmwareSize :=
    (lt_packetCount positive).mp (by rw [← last]; exact Nat.lt_succ_self k)
  have outside : ¬ (k + 1) * packetSize < firmwareSize := fun more =>
    Nat.lt_irrefl _ (last ▸ (lt_packetCount positive).mpr more)
  rw [Nat.add_mul, Nat.one_mul] at outside
  have quotient : firmwareSize / packetSize = k := by
    rw [Nat.div_eq_iff positive]
    have notWhole : firmwareSize ≠ k * packetSize + packetSize := by
      intro whole
      rw [whole, ← Nat.succ_mul, Nat.mul_mod_left] at remainder
      exact remainder rfl
    omega
  have parts := Nat.div_add_mod firmwareSize packetSize
  rw [quotient, Nat.mul_comm] at parts
  unfold slotLength
  omega

end

theorem expectLenOf_eq {ctrl : OtaCtrl} (positive : 0 < ctrl.packetSize)
    (count : ctrl.expectPacketCount = packetCount ctrl.firmwareSize ctrl.packetSize % 2 ^ 16)
    (kept : CountKept ctrl.firmwareSize ctrl.packetSize) (known : k < ctrl.expectPacketCount)
    (expects : expectLenOf ctrl k ≠ 0) :
    expectLenOf ctrl k = slotLength ctrl.firmwareSize ctrl.packetSize k := by
  unfold expectLenOf at expects ⊢
  split at expects
  · next last =>
    rw [if_pos last]
    rcases kept with small | noRemainder | none_
    · exact (slotLength_last positive (by omega) expects).symm
    · exact absurd noRemainder expects
    · omega
  · next notLast =>
    rw [if_neg notLast]
    exact (slotLength_full positive (by omega)).symm

/-- The condition on the client: the count of packets it announces is kept, and the
packets it begins have the number of the slot that the server has requested. -/
def InOrder (cfg : Config) (s : Server) (e : Event) : Prop :=
  ∀ data, Hears cfg s e data →
    (Begins cfg s data → CountKept (word24 data 2) (word16 data 5)) ∧
    (Opens s data → word16 data 2 = s.ctrl.recvPacketCount)

instance (cfg : Config) (s : Server) (data : List UInt8) : Decidable (Begins cfg s data) :=
  decidable_of_iff (s.ctrl.st = .idle ∧ IsStart data ∧ word24 data 2 ≤ otaPartitionSize cfg ∧
      word16 data 5 ≤ otaPacketSize ∧ 0 < word16 data 5)
    ⟨fun ⟨a, b, c, d, e⟩ => ⟨a, b, c, d, e⟩, fun ⟨a, b, c, d, e⟩ => ⟨a, b, c, d, e⟩⟩

instance (s : Server) (data : List UInt8) : Decidable (Opens s data) :=
  decidable_of_iff (s.ctrl.st = .dl ∧ IsHeader data ∧ s.rx.expectLen = 0 ∧
      word16 data 2 < s.ctrl.expectPacketCount)
    ⟨fun ⟨a, b, c, d⟩ => ⟨a, b, c, d⟩, fun ⟨a, b, c, d⟩ => ⟨a, b, c, d⟩⟩

instance (firmwareSize packetSize : Nat) : Decidable (CountKept firmwareSize packetSize) :=
  inferInstanceAs (Decidable (_ ∨ _ ∨ _))

instance (cfg : Config) (s : Server) (e : Event) : Decidable (InOrder cfg s e) :=
  inferInstanceAs (Decidable (∀ data ∈ heard cfg s e, _ ∧ _))

/-- Everything programmed is in its place, and so will be the packet that is being
received. -/
structure Accounted (s : Server) : Prop extends Sound s where
  placed : AllPlaced s.trace
  kept : s.ctrl.st ≠ .idle → s.ctrl.st ≠ .stop → CountKept s.ctrl.firmwareSize s.ctrl.packetSize
  ordered : s.ctrl.st = .dl ∧ s.rx.expectLen ≠ 0 ∨ s.ctrl.st = .flash →
    s.rx.packetId = s.ctrl.recvPacketCount

variable {cfg : Config} {s : Server}

theorem Accounted.place (accounted : Accounted s) (flashing : s.ctrl.st = .flash) :
    Placed s.trace (s.ctrl.recvPacketCount * s.ctrl.packetSize) s.rx.rxBuf := by
  have received := accounted.received flashing
  have session := accounted.session_of flashing (by decide) (by decide)
  have kept := accounted.kept (by rw [flashing]; decide) (by rw [flashing]; decide)
  obtain ⟨stream, sends, isPrefix⟩ := received.sends
  rw [accounted.ordered (.inr flashing)] at sends
  refine ⟨_, _, _, _, stream, session.announcement, rfl, sends, isPrefix, ?_, received.checked⟩
  have expects := received.expects
  rw [received.expected] at expects
  have length := expectLenOf_eq session.positive session.count kept received.known expects
  exact received.complete.trans (received.expected.trans (accounted.ordered (.inr flashing) ▸ length))

theorem accounted_step (accounted : Accounted s) {e : Event} (inOrder : InOrder cfg s e)
    {s' : Server} (ok : step cfg s e = .ok s') : Accounted s' := by
  have move := step_move ok
  have sound := sound_step accounted.toSound move
  rcases move.course accounted.toSound with
    ⟨notes, goesOn⟩ | ⟨notes, ended⟩ | ⟨data, heard, begins, rfl⟩ | ⟨works, -, wrote⟩
  · refine ⟨sound, ?_, fun notIdle notStop => ?_, fun packet => ?_⟩
    · rw [goesOn.trace]
      exact accounted.placed.notes fun n member => (goesOn.passes n member).2
    · have active := goesOn.active ⟨notIdle, notStop⟩
      rw [goesOn.sizes.1, goesOn.sizes.2]
      exact accounted.kept active.1 active.2
    rw [goesOn.slot]
    rcases goesOn.packet packet with ⟨before, same, -⟩ | ⟨data, heard, opens, isId, -⟩
    · exact same.trans (accounted.ordered before)
    · exact isId.trans ((inOrder data heard).2 opens)
  · refine ⟨sound, ?_, fun notIdle notStop => absurd ⟨notIdle, notStop⟩ ended.resting,
      fun packet => absurd packet ended.no_packet⟩
    rw [ended.trace]
    exact accounted.placed.notes fun n member => (ended.passes n member).1.2
  · refine ⟨sound, (accounted.placed.note rfl).note rfl, fun _ _ => (inOrder _ heard).1 begins, ?_⟩
    rintro (⟨⟨⟩, -⟩ | ⟨⟨⟩⟩)
  · have active := Server.active_of wrote.flashing (by decide)
    refine ⟨sound, ?_, fun _ _ => ?_, fun packet => absurd packet wrote.no_packet⟩
    · rw [wrote.trace]
      exact accounted.placed.programmed _ (accounted.place wrote.flashing)
    · rw [wrote.sizes.1, wrote.sizes.2]
      exact accounted.kept active.1 active.2

theorem accounted_init (cfg : Config) (works : Bool) (mem : NorFlash.Mem) :
    Accounted (bleOtaInit cfg works mem) := by
  obtain ⟨erased, done, init, sound⟩ := bleOtaInit_eq cfg works mem
  rw [init]
  have nothing : AllPlaced [] := by
    intro before offset data works after split
    cases before <;> cases split
  refine ⟨sound, nothing.note rfl, fun notIdle => absurd rfl notIdle, ?_⟩
  rintro (⟨⟨⟩, -⟩ | ⟨⟨⟩⟩)

/-- **What the server programs is in its place**, in every run in which the client
answers in order. -/
theorem programmed_in_order (cfg : Config) (works : Bool) (mem : NorFlash.Mem) (s : Server)
    (run : Reaches (step cfg) (InOrder cfg) (bleOtaInit cfg works mem) s) : AllPlaced s.trace :=
  (run.invariant (accounted_init cfg works mem)
    fun _ _ _ accounted inOrder ok => accounted_step accounted inOrder ok).placed

def board : Config := ⟨16, ⟨0x4000, 0x1000⟩⟩

def rxWrite (data : List UInt8) (short : data.length < 2 ^ 16) : Event :=
  .charWrite ⟨0, 18, data, short⟩

def requestedFirst : List Event :=
  [.connChange true 0 true, .cccChange 22 .notify,
    rxWrite [0xFF, 0x01, 0x00, 0x00, 0x05, 0x00, 0x02, 0x0A, 0xFE] (by decide),
    .process true, .process true]

def answeredBy (packetId : UInt8) : List Event :=
  requestedFirst ++
    [rxWrite [0xFF, 0xFE, 0x00, packetId, 0x49, 0x8C, 0x11, 0x22] (by simp), .process true]

def blankFlash : NorFlash.Mem := fun _ => NorFlash.blank

theorem programmed_in_order_first : ∃ s,
    (answeredBy 0).foldlM (checked (step board) (InOrder board))
      (bleOtaInit board true blankFlash) = some s ∧
    .programmed 0 [0x11, 0x22] true ∈ s.trace ∧ AllPlaced s.trace := by
  refine ⟨_, rfl, by decide, ?_⟩
  exact programmed_in_order board true blankFlash _
    (reaches_checked (show (answeredBy 0).foldlM _ _ = some _ from rfl))

/-- **A packet comes into the wrong slot**: the client answers the request for the
first packet with the second one, and the server programs it as the first. -/
theorem packet_in_wrong_slot : ∃ s,
    (answeredBy 1).foldlM (step board) (bleOtaInit board true blankFlash) = .ok s ∧
    .programmed 0 [0x11, 0x22] true ∈ s.trace ∧ ¬ AllPlaced s.trace := by
  refine ⟨_, rfl, by decide, ?_⟩
  intro placed
  obtain ⟨firmwareSize, packetSize, k, crc, stream, announcement, offset, sends, -⟩ :=
    placed
      [.erased true, .received [0xFF, 0x01, 0x00, 0x00, 0x05, 0x00, 0x02, 0x0A, 0xFE],
        .announced 5 2, .notified [0xFF, 0x01, 0x01, 0xFE], .notified _,
        .received [0xFF, 0xFE, 0x00, 0x01, 0x49, 0x8C, 0x11, 0x22]]
      0 [0x11, 0x22] true [] rfl
  cases announcement
  have first : k = 0 := by omega
  subst first
  obtain ⟨old, header, frames, trace, isHeader, isFirst, -⟩ := sends
  -- the only header that the client has sent is the one of the second packet
  have others : ∀ n ∈ old ++ (header :: frames).map Note.received, ∀ data,
      n = .received data → IsHeader data → word16 data 2 ≠ 0 := by
    rw [← trace]
    simp only [List.forall_mem_cons, List.not_mem_nil, false_imp_iff, implies_true, and_true,
      reduceCtorEq, Note.received.injEq, forall_eq']
    decide
  exact others _ (by simp) header rfl isHeader isFirst

/-- **The server is sound** after any events in any order. -/
theorem server_sound (cfg : Config) (works : Bool) (mem : NorFlash.Mem) (s : Server)
    (run : Reaches (step cfg) (fun _ _ => True) (bleOtaInit cfg works mem) s) : Sound s :=
  run.invariant (accounted_init cfg works mem).toSound
    fun _ _ _ sound _ ok => sound_step sound (step_move ok)

theorem server_sound_wrong_slot : ∃ s,
    (answeredBy 1).foldlM (step board) (bleOtaInit board true blankFlash) = .ok s ∧ Sound s :=
  ⟨_, rfl, server_sound board true blankFlash _ (reaches_foldlM (fun _ _ _ => trivial)
    (show (answeredBy 1).foldlM (step board) _ = .ok _ from rfl))⟩

end Phy6212.Ota
