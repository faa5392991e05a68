import Phy6212.Ota.Packets
import Mathlib.Data.List.Induction

/-!
# What has been erased when the server programs

The partition is erased at the start and when a connection is lost, and a session programs each slot
once (`ErasedAhead`).
-/

namespace Phy6212.Ota

open List Runs

def erasedLength (cfg : Config) : Nat :=
  (cfg.info.length + cfg.info.sectorSize - 1) / cfg.info.sectorSize * cfg.info.sectorSize

/-- The write of a packet stays in the partition. -/
def Inside (cfg : Config) (offset : Nat) (data : List UInt8) : Prop :=
  offset + 2 * cfg.info.sectorSize + data.length ≤ cfg.info.length

instance (cfg : Config) (offset : Nat) (data : List UInt8) : Decidable (Inside cfg offset data) :=
  inferInstanceAs (Decidable (_ ≤ _))

def Target (cfg : Config) (offset : Nat) (data : List UInt8) (a : Nat) : Prop :=
  offset + 2 * cfg.info.sectorSize ≤ a ∧ a < offset + 2 * cfg.info.sectorSize + data.length

instance (cfg : Config) (offset : Nat) (data : List UInt8) (a : Nat) :
    Decidable (Target cfg offset data a) :=
  inferInstanceAs (Decidable (_ ∧ _))

/-- What a note does to the bytes that count as erased. -/
def erasedAfter (cfg : Config) (erased : Nat → Bool) : Note → Nat → Bool
  | .erased true, a => erased a || a < erasedLength cfg
  | .programmed offset data _, a => erased a && !(Inside cfg offset data ∧ Target cfg offset data a)
  | _, a => erased a

def erasedSince (cfg : Config) (trace : List Note) : Nat → Bool :=
  trace.foldl (erasedAfter cfg) fun _ => false

theorem erasedSince_append (cfg : Config) (trace : List Note) (n : Note) :
    erasedSince cfg (trace ++ [n]) = erasedAfter cfg (erasedSince cfg trace) n := by
  simp [erasedSince]

def AllErased (cfg : Config) (trace : List Note) : Prop :=
  ∀ before offset data works after, trace = before ++ .programmed offset data works :: after →
    Inside cfg offset data → ∀ a, Target cfg offset data a → erasedSince cfg before a = true

def Note.touches : Note → Bool
  | .erased done => done
  | .programmed _ _ _ => true
  | _ => false

def Untouched (trace : List Note) : Prop :=
  trace.reverse.find? Note.touches = some (.erased true)

instance (trace : List Note) : Decidable (Untouched trace) :=
  inferInstanceAs (Decidable (_ = _))

/-- No session begins unless nothing has been programmed since the last erase. -/
def FreshStart (cfg : Config) (s : Server) (e : Event) : Prop :=
  ∀ data, Hears cfg s e data → Begins cfg s data → Untouched s.trace

instance (cfg : Config) (s : Server) (e : Event) : Decidable (FreshStart cfg s e) :=
  inferInstanceAs (Decidable (∀ data ∈ heard cfg s e, _ → _))

variable {cfg : Config} {trace : List Note}

theorem erasedSince_note {n : Note} (other : n.offset? = none) {a : Nat}
    (erased : erasedSince cfg trace a = true) : erasedSince cfg (trace ++ [n]) a = true := by
  rw [erasedSince_append]
  cases n with
  | programmed offset data works => cases other
  | erased done => cases done <;> simp [erasedAfter, erased]
  | received data => exact erased
  | announced firmwareSize packetSize => exact erased
  | notified data => exact erased
  | disconnected => exact erased
  | rebooted => exact erased

theorem AllErased.note (all : AllErased cfg trace) {n : Note} (other : n.offset? = none) :
    AllErased cfg (trace ++ [n]) := by
  intro before offset data works after split
  rcases append_singleton_eq split with ⟨-, rfl⟩ | ⟨rest, earlier⟩
  · cases other
  · exact all before offset data works rest earlier

theorem AllErased.notes (all : AllErased cfg trace) {notes : List Note}
    (others : ∀ n ∈ notes, n.offset? = none) : AllErased cfg (trace ++ notes) :=
  append_induction all fun _ n member before => before.note (others n member)

theorem AllErased.programmed (all : AllErased cfg trace) {offset : Nat} {data : List UInt8}
    {works : Bool}
    (erased : Inside cfg offset data → ∀ a, Target cfg offset data a → erasedSince cfg trace a = true) :
    AllErased cfg (trace ++ [.programmed offset data works]) := by
  intro before offset' data' works' after split
  rcases append_singleton_eq split with ⟨rfl, programmed⟩ | ⟨rest, earlier⟩
  · cases programmed
    exact erased
  · exact all before offset' data' works' rest earlier

theorem Untouched.erased (untouched : Untouched trace) {a : Nat} (inside : a < erasedLength cfg) :
    erasedSince cfg trace a = true := by
  induction trace using reverseRecOn with
  | nil => cases untouched
  | append_singleton trace n ih =>
    unfold Untouched at untouched ih
    rw [reverse_append, reverse_singleton, singleton_append] at untouched
    by_cases touches : n.touches = true
    · rw [find?_cons_of_pos touches] at untouched
      cases untouched
      rw [erasedSince_append]
      simp [erasedAfter, inside]
    rw [find?_cons_of_neg touches] at untouched
    refine erasedSince_note ?_ (ih untouched)
    cases n with
    | programmed offset data works => exact absurd rfl touches
    | _ => rfl

theorem length_le_erasedLength (sectors : 0 < cfg.info.sectorSize) :
    cfg.info.length ≤ erasedLength cfg := by
  unfold erasedLength
  have divided := Nat.div_add_mod (cfg.info.length + cfg.info.sectorSize - 1) cfg.info.sectorSize
  have rest := Nat.mod_lt (cfg.info.length + cfg.info.sectorSize - 1) sectors
  rw [Nat.mul_comm] at divided
  omega

/-- The bytes from the current slot on are erased. -/
structure ErasedAhead (cfg : Config) (s : Server) : Prop extends Sound s where
  all : AllErased cfg s.trace
  ahead : s.ctrl.st ≠ .idle → s.ctrl.st ≠ .stop → ∀ a,
    s.ctrl.recvPacketCount * s.ctrl.packetSize + 2 * cfg.info.sectorSize ≤ a →
      a < cfg.info.length → erasedSince cfg s.trace a = true

variable {s : Server}

theorem Sound.slot (sound : Sound s) (flashing : s.ctrl.st = .flash) :
    s.rx.rxBuf.length ≤ s.ctrl.packetSize := by
  have received := sound.received flashing
  have session := sound.session_of flashing (by decide) (by decide)
  have length : s.rx.rxBuf.length = s.rx.expectLen := received.complete
  rw [length, received.expected]
  exact session.expectLenOf_le s.rx.packetId

theorem erasedAhead_step (sectors : 0 < cfg.info.sectorSize) (before : ErasedAhead cfg s)
    {e : Event} (freshStart : FreshStart cfg s e) {s' : Server} (ok : step cfg s e = .ok s') :
    ErasedAhead cfg s' := by
  have move := step_move ok
  have sound := sound_step before.toSound move
  rcases move.course before.toSound with
    ⟨notes, goesOn⟩ | ⟨notes, ended⟩ | ⟨data, heard, begins, rfl⟩ | ⟨works, -, wrote⟩
  · have others : ∀ n ∈ notes, n.offset? = none := fun n member => (goesOn.passes n member).2
    refine ⟨sound, ?_, ?_⟩
    · rw [goesOn.trace]
      exact before.all.notes others
    intro notIdle notStop a low high
    have active := goesOn.active ⟨notIdle, notStop⟩
    rw [goesOn.slot, goesOn.sizes.2] at low
    rw [goesOn.trace]
    exact append_induction (P := fun trace => erasedSince cfg trace a = true)
      (before.ahead active.1 active.2 a low high)
      fun _ n member erased => erasedSince_note (others n member) erased
  · refine ⟨sound, ?_, fun notIdle notStop => absurd ⟨notIdle, notStop⟩ ended.resting⟩
    rw [ended.trace]
    exact before.all.notes fun n member => (ended.passes n member).1.2
  · have untouched := freshStart _ heard begins
    refine ⟨sound, (before.all.note rfl).note rfl, ?_⟩
    intro _ _ a _ high
    have covered := length_le_erasedLength sectors
    exact erasedSince_note rfl (erasedSince_note rfl (untouched.erased (by omega)))
  · have active := Server.active_of wrote.flashing (by decide)
    have ahead := before.ahead active.1 active.2
    have length := before.slot wrote.flashing
    refine ⟨sound, ?_, ?_⟩
    · rw [wrote.trace]
      refine before.all.programmed fun inside a target => ?_
      exact ahead a target.1 (Nat.lt_of_lt_of_le target.2 inside)
    intro _ _ a low high
    rw [wrote.slot, wrote.sizes.2, Nat.add_mul, Nat.one_mul] at low
    rw [wrote.trace, erasedSince_append]
    have outside : ¬ Target cfg (s.ctrl.recvPacketCount * s.ctrl.packetSize) s.rx.rxBuf a := by
      rintro ⟨-, below⟩
      omega
    simp only [erasedAfter, ahead a (by omega) high, outside, and_false, decide_false,
      Bool.not_false, Bool.and_self]

theorem erasedAhead_init (cfg : Config) (works : Bool) (mem : NorFlash.Mem) :
    ErasedAhead cfg (bleOtaInit cfg works mem) := by
  obtain ⟨erased, done, init, sound⟩ := bleOtaInit_eq cfg works mem
  rw [init]
  have nothing : AllErased cfg [] := by
    intro before offset data works after split
    cases before <;> cases split
  exact ⟨sound, nothing.note rfl, fun notIdle => absurd rfl notIdle⟩

/-- **The server programs erased bytes only**, in every run in which no session begins
after something has been programmed since the last erase. -/
theorem writes_hit_erased (cfg : Config) (sectors : 0 < cfg.info.sectorSize) (works : Bool)
    (mem : NorFlash.Mem) (s : Server)
    (run : Reaches (step cfg) (FreshStart cfg) (bleOtaInit cfg works mem) s) :
    AllErased cfg s.trace :=
  (run.invariant (erasedAhead_init cfg works mem)
    fun _ _ _ before freshStart ok => erasedAhead_step sectors before freshStart ok).all

theorem writes_hit_erased_first : ∃ s,
    (answeredBy 0).foldlM (checked (step board) (FreshStart board))
      (bleOtaInit board true blankFlash) = some s ∧
    .programmed 0 [0x11, 0x22] true ∈ s.trace ∧ AllErased board s.trace := by
  refine ⟨_, rfl, by decide, ?_⟩
  exact writes_hit_erased board (by decide) true blankFlash _
    (reaches_checked (show (answeredBy 0).foldlM _ _ = some _ from rfl))

/-- The client stops the session after its first packet and begins again. -/
def stoppedAndRestarted : List Event :=
  answeredBy 0 ++ [.process true, rxWrite [0xFF, 0x02, 0xFE] (by decide), .process true] ++
    (answeredBy 0).drop 2

/-- **Bytes are programmed twice without an erase** when a session is stopped and
another one begins over the same connection. -/
theorem restart_programs_twice : ∃ s,
    stoppedAndRestarted.foldlM (step board) (bleOtaInit board true blankFlash) = .ok s ∧
    ¬ AllErased board s.trace := by
  refine ⟨_, rfl, fun all => ?_⟩
  have erased := all
    _
    0 [0x11, 0x22] true [] rfl (by decide) 0x2000 (by decide)
  exact absurd erased (by decide)

end Phy6212.Ota
