import Phy6212.Ota.Coverage
import Phy6212.Ota.Transfer

/-!
# What a session asks for

A packet is requested again when it does not come or has a wrong CRC, ten times in a row at most;
the counter is cleared by each packet programmed (`Budgeted`).
-/

namespace Phy6212.Ota

open List Misc Runs

def requests (session : List Note) : Nat := session.countP fun n => n.requested?.isSome

def sessionWrites (trace : List Note) : List Nat :=
  (currentSession trace).reverse.filterMap Note.offset?

def SessionBounded (trace : List Note) : Prop :=
  ∀ firmwareSize packetSize, announced trace = some (firmwareSize, packetSize) →
    requests (currentSession trace) ≤ 10 * max 1 (packetCount firmwareSize packetSize % 2 ^ 16) ∧
    (sessionWrites trace).length ≤ packetCount firmwareSize packetSize % 2 ^ 16 ∧
    ∀ k offset, (sessionWrites trace)[k]? = some offset → offset = k * packetSize

structure Quiet (n : Note) : Prop where
  announcement : n.announcement = none
  requested : n.requested? = none
  offset : n.offset? = none

variable {trace : List Note} {n : Note}

theorem requests_append (other : n.announcement = none) :
    requests (currentSession (trace ++ [n])) =
      requests (currentSession trace) + if n.requested?.isSome then 1 else 0 := by
  rw [currentSession_append trace other, requests, countP_cons]
  rfl

theorem sessionWrites_append (other : n.announcement = none) :
    sessionWrites (trace ++ [n]) = sessionWrites trace ++ n.offset?.toList := by
  rw [sessionWrites, currentSession_append trace other, reverse_cons, filterMap_append]
  cases offset : n.offset? with
  | none => simp [sessionWrites, offset]
  | some offset' => simp [sessionWrites, offset]

theorem currentSession_announced (trace : List Note) (firmwareSize packetSize : Nat) :
    currentSession (trace ++ [.announced firmwareSize packetSize]) = [] := by
  simp [currentSession, Note.announcement]

variable {notes : List Note}

theorem quiet_append (quiet : ∀ n ∈ notes, Quiet n) (trace : List Note) :
    announced (trace ++ notes) = announced trace ∧
      requests (currentSession (trace ++ notes)) = requests (currentSession trace) ∧
      sessionWrites (trace ++ notes) = sessionWrites trace := by
  induction notes generalizing trace with
  | nil => simp
  | cons n notes same =>
    have here := quiet n mem_cons_self
    obtain ⟨announcement, count, writes⟩ :=
      same (fun m member => quiet m (mem_cons_of_mem _ member)) _
    rw [append_cons, announcement, count, writes]
    refine ⟨?_, ?_, ?_⟩
    · rw [announced_append, here.announcement, Option.none_or]
    · rw [requests_append here.announcement, here.requested]
      rfl
    · rw [sessionWrites_append here.announcement, here.offset]
      simp

theorem SessionBounded.quiet (bounded : SessionBounded trace) (quiet : ∀ n ∈ notes, Quiet n) :
    SessionBounded (trace ++ notes) := by
  obtain ⟨announcement, count, writes⟩ := quiet_append quiet trace
  unfold SessionBounded
  rw [announcement, count, writes]
  exact bounded

/-- The requests of a session have been made for packets that are programmed, or since then. -/
structure Budgeted (s : Server) : Prop extends Sound s where
  bounded : SessionBounded s.trace
  cleared : s.ctrl.st = .idle ∨ s.ctrl.st = .stop ∨ s.ctrl.st = .start → s.ctrl.retryCount = 0
  patient : s.ctrl.retryCount ≤ 10
  spent : s.Active → requests (currentSession s.trace) ≤
    10 * s.ctrl.recvPacketCount + s.ctrl.retryCount
  written : s.Active →
    sessionWrites s.trace = (range s.ctrl.recvPacketCount).map (· * s.ctrl.packetSize)

variable {cfg : Config} {s s' : Server}

theorem Budgeted.over (budgeted : Budgeted s) (sound : Sound s')
    (trace : s'.trace = s.trace ++ notes) (quiet : ∀ n ∈ notes, Quiet n)
    (resting : s'.ctrl.st = .idle ∨ s'.ctrl.st = .stop) (cleared : s'.ctrl.retryCount = 0) :
    Budgeted s' := by
  have inactive : ¬ s'.Active := by
    rintro ⟨notIdle, notStop⟩
    rcases resting with idle | stop
    · exact notIdle idle
    · exact notStop stop
  refine ⟨sound, trace ▸ budgeted.bounded.quiet quiet, fun _ => cleared, ?_,
    fun active => absurd active inactive, fun active => absurd active inactive⟩
  rw [cleared]
  exact Nat.zero_le _

theorem Budgeted.goesOn (budgeted : Budgeted s) (sound : Sound s')
    (trace : s'.trace = s.trace ++ notes) (quiet : ∀ n ∈ notes, Quiet n)
    (active : s'.Active → s.Active)
    (state : s'.ctrl.st = .idle ∨ s'.ctrl.st = .stop ∨ s'.ctrl.st = .start →
      s.ctrl.st = .idle ∨ s.ctrl.st = .stop ∨ s.ctrl.st = .start)
    (same : s'.ctrl.retryCount = s.ctrl.retryCount ∧
      s'.ctrl.recvPacketCount = s.ctrl.recvPacketCount ∧ s'.ctrl.packetSize = s.ctrl.packetSize) :
    Budgeted s' := by
  obtain ⟨retries, received, size⟩ := same
  obtain ⟨-, count, writes⟩ := quiet_append quiet s.trace
  refine ⟨sound, trace ▸ budgeted.bounded.quiet quiet, ?_, ?_, ?_, ?_⟩
  · rw [retries]
    exact fun resting => budgeted.cleared (state resting)
  · rw [retries]
    exact budgeted.patient
  · rw [trace, count, retries, received]
    exact fun now => budgeted.spent (active now)
  · rw [trace, writes, received, size]
    exact fun now => budgeted.written (active now)

theorem notResting {st : OtaState} (receiving : st = .dl ∨ st = .flash ∨ st = .request) :
    ¬ (st = .idle ∨ st = .stop ∨ st = .start) := by
  rcases receiving with rfl | rfl | rfl <;> decide

variable {data : List UInt8} {firmwareSize : Nat}

theorem Budgeted.piece (budgeted : Budgeted s) {rx : OtaRx} {piece : List UInt8}
    (downloads : s.ctrl.st = .dl)
    (sound : Sound (otaRecvData { s.note (.received data) with rx := rx } piece).2) :
    Budgeted (otaRecvData { s.note (.received data) with rx := rx } piece).2 := by
  obtain ⟨buffer, st, timer, next, frame⟩ :=
    otaRecvData_frame { s.note _ with rx := rx } piece
  rw [frame] at sound ⊢
  have receiving : st = .dl ∨ st = .flash ∨ st = .request := by
    rw [← downloads]
    exact next
  refine budgeted.goesOn sound (show _ = s.trace ++ [.received data] from rfl) ?_
    (fun _ => Server.active_of downloads (by decide))
    (fun resting => absurd resting (notResting receiving)) ⟨rfl, rfl, rfl⟩
  exact forall_mem_singleton.mpr ⟨rfl, rfl, rfl⟩

theorem Budgeted.left (budgeted : Budgeted s) (requesting : s.ctrl.st = .request) :
    s.ctrl.recvPacketCount + 1 ≤ max 1 s.ctrl.expectPacketCount := by
  have active : s.Active := Server.active_of requesting (by decide)
  have session := budgeted.session active.1 active.2
  rcases budgeted.pending (.inl requesting) with more | none_
  · omega
  · obtain ⟨-, few, -⟩ := budgeted.bounded _ _ session.announcement
    rw [budgeted.written active, length_map, length_range, ← session.count] at few
    omega

theorem SessionBounded.more {packetSize : Nat}
    (announcement : announced trace = some (firmwareSize, packetSize))
    (other : n.announcement = none) (asked : requests (currentSession (trace ++ [n])) ≤
      10 * max 1 (packetCount firmwareSize packetSize % 2 ^ 16))
    (few : (sessionWrites (trace ++ [n])).length ≤ packetCount firmwareSize packetSize % 2 ^ 16)
    (places : ∀ k offset, (sessionWrites (trace ++ [n]))[k]? = some offset →
      offset = k * packetSize) : SessionBounded (trace ++ [n]) := by
  intro firmwareSize' packetSize' announcement'
  rw [announced_append, other, Option.none_or, announcement] at announcement'
  obtain ⟨rfl, rfl⟩ := Prod.mk.inj (Option.some.inj announcement')
  exact ⟨asked, few, places⟩

theorem Budgeted.requestedOne (budgeted : Budgeted s) (sound : Sound s') {offset : Nat}
    (trace : s'.trace = s.trace ++ [.notified (requestFrame offset)])
    (requesting : s.ctrl.st = .request) (patient : (s.ctrl.retryCount + 1) % 2 ^ 8 ≤ 10)
    (state : s'.ctrl.st = .dl) (retries : s'.ctrl.retryCount = (s.ctrl.retryCount + 1) % 2 ^ 8)
    (received : s'.ctrl.recvPacketCount = s.ctrl.recvPacketCount)
    (size : s'.ctrl.packetSize = s.ctrl.packetSize) : Budgeted s' := by
  have active : s.Active := Server.active_of requesting (by decide)
  have session := budgeted.session active.1 active.2
  obtain ⟨-, few, places⟩ := budgeted.bounded _ _ session.announcement
  have spent := budgeted.spent active
  have left_ := budgeted.left requesting
  have before := budgeted.patient
  have one : requests (currentSession s'.trace) = requests (currentSession s.trace) + 1 := by
    rw [trace]
    exact requests_append rfl
  have writes : sessionWrites s'.trace = sessionWrites s.trace := by
    rw [trace]
    exact (sessionWrites_append rfl).trans (append_nil _)
  refine ⟨sound, ?_, ?_, retries.trans_le patient, fun _ => ?_, fun _ => ?_⟩
  · rw [trace] at one writes ⊢
    refine SessionBounded.more session.announcement rfl ?_ (writes ▸ few) (writes ▸ places)
    rw [one, ← session.count]
    omega
  · rw [state]
    rintro (resting | resting | resting) <;> cases resting
  · omega
  · rw [writes, received, size]
    exact budgeted.written active

theorem Budgeted.wroteOne (budgeted : Budgeted s) (sound : Sound s') {works : Bool}
    (flashing : s.ctrl.st = .flash) (trace : s'.trace = s.trace ++
      [.programmed (s.ctrl.recvPacketCount * s.ctrl.packetSize) data works])
    (state : s'.ctrl.st = .request ∨ s'.ctrl.st = .complete) (retries : s'.ctrl.retryCount = 0)
    (received : s'.ctrl.recvPacketCount = (s.ctrl.recvPacketCount + 1) % 2 ^ 16)
    (size : s'.ctrl.packetSize = s.ctrl.packetSize) : Budgeted s' := by
  have active : s.Active := Server.active_of flashing (by decide)
  have session := budgeted.session active.1 active.2
  obtain ⟨asked, few, places⟩ := budgeted.bounded _ _ session.announcement
  have spent := budgeted.spent active
  have patient := budgeted.patient
  obtain ⟨within, kept⟩ := budgeted.wrote flashing
  rw [kept] at received
  have count : requests (currentSession s'.trace) = requests (currentSession s.trace) := by
    rw [trace]
    exact requests_append rfl
  have writes : sessionWrites s'.trace =
      (range (s.ctrl.recvPacketCount + 1)).map (· * s.ctrl.packetSize) := by
    rw [trace, sessionWrites_append rfl, budgeted.written active, range_succ, map_append]
    rfl
  refine ⟨sound, ?_, ?_, retries.trans_le (Nat.zero_le _), fun _ => ?_, fun _ => ?_⟩
  · rw [trace] at count writes ⊢
    refine SessionBounded.more session.announcement rfl ?_ ?_ ?_
    · rw [count]
      exact asked
    · rw [writes, length_map, length_range, ← session.count]
      exact within
    intro k offset here
    rw [writes, getElem?_map] at here
    obtain ⟨slot, found, rfl⟩ := Option.map_eq_some_iff.mp here
    rw [getElem?_eq_some_iff] at found
    obtain ⟨below, rfl⟩ := found
    rw [getElem_range]
  · rintro (resting | resting | resting) <;> rw [resting] at state <;> simp at state
  · omega
  · rw [writes, received, size]

theorem budgeted_begun (sound : Sound s') {before : List Note} {packetSize : Nat}
    (trace : s'.trace = before ++ [.announced firmwareSize packetSize])
    (cleared : s'.ctrl.retryCount = 0) (fresh : s'.ctrl.recvPacketCount = 0) : Budgeted s' := by
  have nothing : currentSession s'.trace = [] := by
    rw [trace]
    exact currentSession_announced before firmwareSize packetSize
  have unwritten : sessionWrites s'.trace = [] := by
    rw [sessionWrites, nothing]
    rfl
  refine ⟨sound, fun size size' _ => ?_, fun _ => cleared, cleared.trans_le (Nat.zero_le _),
    fun _ => ?_, fun _ => ?_⟩
  · rw [nothing, unwritten]
    exact ⟨Nat.zero_le _, Nat.zero_le _, fun k offset impossible => by simp at impossible⟩
  · rw [nothing]
    exact Nat.zero_le _
  · rw [unwritten, fresh]
    rfl

theorem budgeted_step (budgeted : Budgeted s) {e : Event} (move : Move cfg s e s') :
    Budgeted s' := by
  have sound := sound_step budgeted.toSound move
  have silent : ∀ n ∈ ([]), Quiet n := fun n member => absurd member not_mem_nil
  cases move with
  | nothing => exact budgeted
  | connected connHandle =>
    exact budgeted.goesOn sound (append_nil _).symm silent id id ⟨rfl, rfl, rfl⟩
  | subscribed value =>
    exact budgeted.goesOn sound (append_nil _).symm silent id id ⟨rfl, rfl, rfl⟩
  | lost connHandle works event mem done =>
    exact budgeted.over sound rfl (forall_mem_singleton.mpr ⟨rfl, rfl, rfl⟩) (.inl rfl) rfl
  | ignored heard waits =>
    exact budgeted.goesOn sound rfl (forall_mem_singleton.mpr ⟨rfl, rfl, rfl⟩) id id
      ⟨rfl, rfl, rfl⟩
  | began heard begins =>
    exact budgeted_begun sound rfl (budgeted.cleared (.inl begins.idle))
      (budgeted.fresh (.inl begins.idle))
  | stopped heard downloads command =>
    exact budgeted.over sound rfl (forall_mem_singleton.mpr ⟨rfl, rfl, rfl⟩) (.inr rfl) rfl
  | finished heard downloads command =>
    refine budgeted.goesOn sound rfl (forall_mem_singleton.mpr ⟨rfl, rfl, rfl⟩)
      (fun _ => Server.active_of downloads (by decide)) ?_ ⟨rfl, rfl, rfl⟩
    rintro (resting | resting | resting) <;> cases resting
  | opened heard opens => exact budgeted.piece opens.downloads sound
  | continued heard downloads expects => exact budgeted.piece downloads sound
  | welcomed starting =>
    refine budgeted.goesOn sound rfl (forall_mem_singleton.mpr ⟨rfl, rfl, rfl⟩)
      (fun _ => Server.active_of starting (by decide)) ?_ ⟨rfl, rfl, rfl⟩
    rintro (resting | resting | resting) <;> cases resting
  | gaveUp requesting =>
    exact budgeted.over sound rfl (forall_mem_singleton.mpr ⟨rfl, rfl, rfl⟩) (.inl rfl) rfl
  | requested requesting patient =>
    exact budgeted.requestedOne sound rfl requesting patient rfl rfl rfl rfl
  | wrote works event flashing st next =>
    refine budgeted.wroteOne sound flashing rfl ?_ rfl rfl rfl
    split at next
    · exact .inl next
    · exact .inr next
  | rested stopping =>
    exact budgeted.over sound (append_nil _).symm silent (.inl rfl)
      (budgeted.cleared (.inr (.inl stopping)))
  | rebooted complete =>
    refine budgeted.goesOn sound rfl ?_ id id ⟨rfl, rfl, rfl⟩
    exact forall_mem_cons.mpr ⟨⟨rfl, rfl, rfl⟩,
      forall_mem_singleton.mpr ⟨rfl, rfl, rfl⟩⟩
  | expired armed =>
    have running : s.ctrl.timer ≠ none := by
      rw [armed]
      exact Option.some_ne_none _
    refine budgeted.goesOn sound (append_nil _).symm silent (fun _ => ?_) ?_ ⟨rfl, rfl, rfl⟩
    · rcases budgeted.armed running with state | state
      · exact Server.active_of state (by decide)
      · exact Server.active_of state (by decide)
    · rintro (resting | resting | resting) <;> cases resting

theorem budgeted_init (cfg : Config) (works : Bool) (mem : NorFlash.Mem) :
    Budgeted (bleOtaInit cfg works mem) := by
  obtain ⟨erased, done, init, sound⟩ := bleOtaInit_eq cfg works mem
  rw [init]
  have inactive {P : Prop} (active : OtaState.idle ≠ .idle ∧ OtaState.idle ≠ .stop) : P :=
    absurd rfl active.1
  refine ⟨sound, ?_, fun _ => rfl, Nat.zero_le _, inactive, inactive⟩
  intro firmwareSize packetSize impossible
  cases impossible

/-- **A session makes at most ten requests for each packet that it expects and writes each of them
once, one behind the other.** -/
theorem session_bounded (cfg : Config) (works : Bool) (mem : NorFlash.Mem) (s : Server)
    (run : Reaches (step cfg) (fun _ _ => True) (bleOtaInit cfg works mem) s) :
    SessionBounded s.trace :=
  (run.invariant (budgeted_init cfg works mem)
    fun _ _ _ budgeted _ ok => budgeted_step budgeted (step_move ok)).bounded

theorem session_bounded_first : ∃ s,
    (answeredBy 0).foldlM (step board) (bleOtaInit board true blankFlash) = .ok s ∧
    announced s.trace = some (5, 2) ∧ requests (currentSession s.trace) = 1 ∧
    sessionWrites s.trace = [0] ∧ SessionBounded s.trace := by
  refine ⟨_, rfl, by decide, by decide, by decide, ?_⟩
  exact session_bounded board true blankFlash _ (reaches_foldlM (fun _ _ _ => trivial)
    (show (answeredBy 0).foldlM (step board) _ = .ok _ from rfl))

end Phy6212.Ota
