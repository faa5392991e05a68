import Phy6212.Ota.Packets

/-!
# What has been programmed when the device reboots

The device reboots when the last packet has been programmed, or when the client says so with
`OTA_CMD_COMPLETE`, which is obeyed at any time (`reboot_on_command`).
-/

namespace Phy6212.Ota

open List Misc Runs

def currentSession (trace : List Note) : List Note :=
  trace.reverse.takeWhile fun n => n.announcement.isNone

theorem currentSession_notes (trace : List Note) {notes : List Note}
    (others : ∀ n ∈ notes, n.announcement = none) :
    currentSession (trace ++ notes) = notes.reverse ++ currentSession trace := by
  unfold currentSession
  rw [reverse_append, takeWhile_append_of_pos]
  intro n member
  rw [others n (mem_reverse.mp member), Option.isNone_none]

theorem currentSession_append (trace : List Note) {n : Note} (other : n.announcement = none) :
    currentSession (trace ++ [n]) = n :: currentSession trace :=
  currentSession_notes trace (forall_mem_singleton.mpr other)

/-- Successful writes cover every byte of the firmware below `size`. -/
def Covered (session : List Note) (size : Nat) : Prop :=
  ∀ b < size, ∃ offset data,
    .programmed offset data true ∈ session ∧ offset ≤ b ∧ b < offset + data.length

def ClientCompletes (session : List Note) : Prop :=
  ∃ data, .received data ∈ session ∧ IsCommand .complete data

def Finished (trace : List Note) (firmwareSize : Nat) : Prop :=
  ClientCompletes (currentSession trace) ∨ Covered (currentSession trace) firmwareSize

def Justified (before : List Note) : Prop :=
  ∃ firmwareSize packetSize, announced before = some (firmwareSize, packetSize) ∧
    Finished before firmwareSize

def AllJustified (trace : List Note) : Prop :=
  ∀ before after, trace = before ++ .rebooted :: after → Justified before

variable {session : List Note}

theorem covered_zero (session : List Note) : Covered session 0 :=
  fun _ impossible => absurd impossible (Nat.not_lt_zero _)

theorem Covered.append {size : Nat} (covered : Covered session size) (notes : List Note) :
    Covered (notes ++ session) size := by
  intro b below
  obtain ⟨offset, data, member, low, high⟩ := covered b below
  exact ⟨offset, data, mem_append_right _ member, low, high⟩

theorem Covered.mono {size size' : Nat} (covered : Covered session size) (less : size' ≤ size) :
    Covered session size' :=
  fun b below => covered b (Nat.lt_of_lt_of_le below less)

theorem Covered.extend {offset : Nat} (covered : Covered session offset) (data : List UInt8) :
    Covered (.programmed offset data true :: session) (offset + data.length) := by
  intro b below
  rcases Nat.lt_or_ge b offset with before | behind
  · exact covered.append [_] b before
  · exact ⟨offset, data, mem_cons_self, behind, below⟩

variable {trace : List Note}

theorem Finished.notes {notes : List Note} {firmwareSize : Nat}
    (finished : Finished trace firmwareSize) (others : ∀ n ∈ notes, n.announcement = none) :
    Finished (trace ++ notes) firmwareSize := by
  unfold Finished
  rw [currentSession_notes _ others]
  rcases finished with ⟨data, member, command⟩ | covered
  · exact .inl ⟨data, mem_append_right _ member, command⟩
  · exact .inr (covered.append _)

theorem AllJustified.note (justified : AllJustified trace) {n : Note} (other : n ≠ .rebooted) :
    AllJustified (trace ++ [n]) := by
  intro before after split
  rcases append_singleton_eq split with ⟨-, rebooted⟩ | ⟨rest, earlier⟩
  · exact absurd rebooted other
  · exact justified before rest earlier

theorem AllJustified.rebooted (justified : AllJustified trace) (now : Justified trace) :
    AllJustified (trace ++ [.rebooted]) := by
  intro before after split
  rcases append_singleton_eq split with ⟨rfl, -⟩ | ⟨rest, earlier⟩
  · exact now
  · exact justified before rest earlier

/-- The slips of the server do not show: the count of packets fits 16 bits, the
packet with the last number, which is taken to be shorter, comes for the last slot,
and no write fails. -/
def Careful (cfg : Config) (s : Server) (e : Event) : Prop :=
  (∀ data, Hears cfg s e data →
    (Begins cfg s data → packetCount (word24 data 2) (word16 data 5) < 2 ^ 16) ∧
    (Opens s data → word16 data 2 + 1 = s.ctrl.expectPacketCount →
      s.ctrl.recvPacketCount + 1 = s.ctrl.expectPacketCount)) ∧
  ∀ works, e = .process works → s.ctrl.st = .flash →
    programs cfg works (s.ctrl.recvPacketCount * s.ctrl.packetSize) s.rx.rxBuf = true

instance (cfg : Config) (s : Server) (e : Event) : Decidable (Careful cfg s e) :=
  inferInstanceAs (Decidable ((∀ data ∈ heard cfg s e, _ ∧ _) ∧ ∀ _ : Bool, _))

/-- The firmware has been programmed up to the current slot, and the packet that is
being received will fill that slot. -/
structure Covering (s : Server) : Prop extends Sound s where
  justified : AllJustified s.trace
  bounded : s.ctrl.st ≠ .idle → s.ctrl.st ≠ .stop →
    packetCount s.ctrl.firmwareSize s.ctrl.packetSize < 2 ^ 16
  covered : s.ctrl.st ≠ .idle → s.ctrl.st ≠ .stop → Covered (currentSession s.trace)
    (min (s.ctrl.recvPacketCount * s.ctrl.packetSize) s.ctrl.firmwareSize)
  fills : s.ctrl.st = .dl ∧ s.rx.expectLen ≠ 0 ∨ s.ctrl.st = .flash →
    slotLength s.ctrl.firmwareSize s.ctrl.packetSize s.ctrl.recvPacketCount ≤ s.rx.expectLen
  complete : s.ctrl.st = .complete → Finished s.trace s.ctrl.firmwareSize

variable {cfg : Config} {s : Server}

theorem slotLength_le_expectLenOf {ctrl : OtaCtrl} {k id : Nat} (positive : 0 < ctrl.packetSize)
    (count : ctrl.expectPacketCount = packetCount ctrl.firmwareSize ctrl.packetSize)
    (known : id < ctrl.expectPacketCount)
    (last : id + 1 = ctrl.expectPacketCount → k + 1 = ctrl.expectPacketCount)
    (expects : expectLenOf ctrl id ≠ 0) :
    slotLength ctrl.firmwareSize ctrl.packetSize k ≤ expectLenOf ctrl id := by
  unfold expectLenOf at expects ⊢
  split at expects
  · next isLast =>
    rw [if_pos isLast]
    exact Nat.le_of_eq (slotLength_last positive ((last (by omega)).trans count) expects)
  · next notLast =>
    rw [if_neg notLast]
    exact Nat.min_le_left _ _

theorem Covering.extend (covering : Covering s) (flashing : s.ctrl.st = .flash) :
    Covered (.programmed (s.ctrl.recvPacketCount * s.ctrl.packetSize) s.rx.rxBuf true ::
        currentSession s.trace)
      (min ((s.ctrl.recvPacketCount + 1) * s.ctrl.packetSize) s.ctrl.firmwareSize) := by
  have received := covering.received flashing
  have session := covering.session_of flashing (by decide) (by decide)
  have fills := covering.fills (.inr flashing)
  have soFar := covering.covered (by rw [flashing]; decide) (by rw [flashing]; decide)
  have inside : s.ctrl.recvPacketCount * s.ctrl.packetSize < s.ctrl.firmwareSize := by
    refine (lt_packetCount session.positive).mp ?_
    have count := session.count
    rw [Nat.mod_eq_of_lt (covering.bounded (by rw [flashing]; decide) (by rw [flashing]; decide))]
      at count
    rw [← count]
    exact (covering.wrote flashing).1
  rw [Nat.min_eq_left (Nat.le_of_lt inside)] at soFar
  refine (soFar.extend s.rx.rxBuf).mono ?_
  have complete := received.complete
  unfold OtaRx.rxLen at complete
  unfold slotLength at fills
  rw [complete, Nat.add_mul, Nat.one_mul]
  omega

theorem AllJustified.goesOn (covering : Covering s) {e : Event} {notes : List Note} {s' : Server}
    (goesOn : GoesOn cfg s e notes s') : AllJustified s'.trace := by
  rw [goesOn.trace]
  by_cases reboots : .rebooted ∈ notes
  · obtain ⟨complete, n, other, passes, rfl⟩ := goesOn.reboots reboots
    have session := covering.session_of complete (by decide) (by decide)
    rw [append_cons]
    exact (covering.justified.note other).rebooted ⟨_, _, (session.note passes.1).announcement,
      (covering.complete complete).notes (forall_mem_singleton.mpr passes.1)⟩
  · exact append_induction covering.justified fun _ n member before =>
      before.note fun now => reboots (now ▸ member)

theorem covering_step (covering : Covering s) {e : Event} (careful : Careful cfg s e)
    {s' : Server} (ok : step cfg s e = .ok s') : Covering s' := by
  have move := step_move ok
  have sound := sound_step covering.toSound move
  rcases move.course covering.toSound with
    ⟨notes, goesOn⟩ | ⟨notes, ended⟩ | ⟨data, heard, begins, rfl⟩ | ⟨works, event, wrote⟩
  · have others : ∀ n ∈ notes, n.announcement = none := fun n member => (goesOn.passes n member).1
    refine ⟨sound, .goesOn covering goesOn, fun notIdle notStop => ?_, fun notIdle notStop => ?_,
      fun packet => ?_, fun complete => ?_⟩
    · have active := goesOn.active ⟨notIdle, notStop⟩
      rw [goesOn.sizes.1, goesOn.sizes.2]
      exact covering.bounded active.1 active.2
    · have active := goesOn.active ⟨notIdle, notStop⟩
      rw [goesOn.trace, currentSession_notes _ others, goesOn.slot, goesOn.sizes.1, goesOn.sizes.2]
      exact (covering.covered active.1 active.2).append _
    · rw [goesOn.slot, goesOn.sizes.1, goesOn.sizes.2]
      rcases goesOn.packet packet with ⟨before, -, same⟩ | ⟨data, heard, opens, -, length⟩
      · exact same ▸ covering.fills before
      have active := Server.active_of opens.downloads (by decide)
      have session := covering.session active.1 active.2
      have fits := covering.bounded active.1 active.2
      have expects : expectLenOf s.ctrl (word16 data 2) ≠ 0 := by
        rw [← length]
        exact packet.elim And.right fun flashing => (sound.received flashing).expects
      rw [length]
      exact slotLength_le_expectLenOf session.positive
        (session.count.trans (Nat.mod_eq_of_lt fits)) opens.known ((careful.1 _ heard).2 opens)
        expects
    · rw [goesOn.trace, goesOn.sizes.1]
      rcases goesOn.complete complete with before | ⟨data, command, member⟩
      · exact (covering.complete before).notes others
      · refine .inl ⟨data, ?_, command⟩
        rw [currentSession_notes _ others]
        exact mem_append_left _ (mem_reverse.mpr member)
  · refine ⟨sound, ?_, fun notIdle notStop => absurd ⟨notIdle, notStop⟩ ended.resting,
      fun notIdle notStop => absurd ⟨notIdle, notStop⟩ ended.resting,
      fun packet => absurd packet ended.no_packet,
      fun complete => absurd (Server.active_of complete (by decide)) ended.resting⟩
    rw [ended.trace]
    exact append_induction covering.justified fun _ n member before =>
      before.note (ended.passes n member).2
  · refine ⟨sound, (covering.justified.note (by simp)).note (by simp),
      fun _ _ => (careful.1 _ heard).1 begins, fun _ _ => ?_, ?_, by rintro ⟨⟩⟩
    · have none_ : s.ctrl.recvPacketCount = 0 := covering.fresh (.inl begins.idle)
      show Covered _ (min (s.ctrl.recvPacketCount * _) _)
      rw [none_, Nat.zero_mul, Nat.zero_min]
      exact covered_zero _
    · rintro (⟨⟨⟩, -⟩ | ⟨⟨⟩⟩)
  · have active := Server.active_of wrote.flashing (by decide)
    have session := covering.session active.1 active.2
    have fits := covering.bounded active.1 active.2
    have extended := covering.extend wrote.flashing
    rw [← currentSession_append s.trace rfl, ← careful.2 works event wrote.flashing, ← wrote.trace,
      ← wrote.slot, ← wrote.sizes.1, ← wrote.sizes.2] at extended
    refine ⟨sound, ?_, fun _ _ => ?_, fun _ _ => extended, fun packet => absurd packet wrote.no_packet,
      fun complete => .inr ?_⟩
    · rw [wrote.trace]
      exact covering.justified.note (by simp)
    · rw [wrote.sizes.1, wrote.sizes.2]
      exact fits
    refine extended.mono (Nat.le_min.mpr ⟨?_, Nat.le_refl _⟩)
    rw [wrote.sizes.1, wrote.sizes.2, wrote.slot]
    refine firmware_le session.positive ?_
    rw [← session.count.trans (Nat.mod_eq_of_lt fits)]
    rcases wrote.next with requests | ⟨-, done⟩
    · rw [complete] at requests
      cases requests
    · exact done

theorem covering_init (cfg : Config) (works : Bool) (mem : NorFlash.Mem) :
    Covering (bleOtaInit cfg works mem) := by
  obtain ⟨erased, done, init, sound⟩ := bleOtaInit_eq cfg works mem
  rw [init]
  have nothing : AllJustified [] := by
    intro before after split
    cases before <;> cases split
  refine ⟨sound, nothing.note (by simp), fun notIdle => absurd rfl notIdle,
    fun notIdle => absurd rfl notIdle, ?_, by rintro ⟨⟩⟩
  rintro (⟨⟨⟩, -⟩ | ⟨⟨⟩⟩)

/-- **When the device reboots, the client has completed the session or the firmware
is covered**, in every careful run. -/
theorem reboot_covered (cfg : Config) (works : Bool) (mem : NorFlash.Mem) (s : Server)
    (run : Reaches (step cfg) (Careful cfg) (bleOtaInit cfg works mem) s) : AllJustified s.trace :=
  (run.invariant (covering_init cfg works mem)
    fun _ _ _ covering careful ok => covering_step covering careful ok).justified

def singleByte : List Event :=
  [.connChange true 0 true, .cccChange 22 .notify,
    rxWrite [0xFF, 0x01, 0x00, 0x00, 0x01, 0x00, 0x02, 0x0A, 0xFE] (by decide),
    .process true, .process true, rxWrite [0xFF, 0xFE, 0x00, 0x00, 0x0C, 0xC0, 0x11] (by decide),
    .process true, .process true]

theorem reboot_covered_single : ∃ s,
    singleByte.foldlM (checked (step board) (Careful board)) (bleOtaInit board true blankFlash) =
      some s ∧
    .rebooted ∈ s.trace ∧ AllJustified s.trace := by
  refine ⟨_, rfl, by decide, ?_⟩
  exact reboot_covered board true blankFlash _
    (reaches_checked (show singleByte.foldlM _ _ = some _ from rfl))

/-- **The device reboots when the client says so**, though nothing has been
programmed. -/
theorem reboot_on_command : ∃ s,
    (requestedFirst ++ [rxWrite [0xFF, 0x04, 0xFE] (by decide), .process true]).foldlM (step board)
      (bleOtaInit board true blankFlash) = .ok s ∧
    ∃ before, s.trace = before ++ [.rebooted] ∧ announced before = some (5, 2) ∧
      ¬ Covered (currentSession before) 5 := by
  refine ⟨_, rfl,
    [.erased true, .received [0xFF, 0x01, 0x00, 0x00, 0x05, 0x00, 0x02, 0x0A, 0xFE],
      .announced 5 2, .notified [0xFF, 0x01, 0x01, 0xFE], .notified _,
      .received [0xFF, 0x04, 0xFE], .notified [0xFF, 0x04, 0x00, 0xFE]], rfl, rfl, ?_⟩
  intro covered
  obtain ⟨offset, data, programmed, -⟩ := covered 0 (by decide)
  have others : ∀ n ∈ [Note.notified [0xFF, 0x04, 0x00, 0xFE], .received [0xFF, 0x04, 0xFE],
      .notified (requestFrame 0), .notified [0xFF, 0x01, 0x01, 0xFE]],
      n ≠ .programmed offset data true := by
    simp
  exact others _ programmed rfl

end Phy6212.Ota
