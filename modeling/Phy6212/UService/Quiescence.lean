import Phy6212.UService.Handshake

/-!
# Buffers left when nothing is in progress

As long as every call that has a buffer is sent and answered, somebody will call `rpc_deinit` on
each allocated buffer (`Owed`), so when no call is in progress nothing is left
(`quiescent_nothing_left`).
-/

namespace Phy6212.UService

open Function List Pointers Runs

/-! ## Who will free a buffer -/

/-- Every buffer is held, and a side that holds one alone has not sent it yet or finds it on
the list. -/
structure Owed (live : Ptr → Prop) (holds : Side → Ptr → Prop) (unsent : Ptr → Prop)
    (cache : List Ptr) : Prop where
  owned : ∀ p, live p → ∃ side, holds side p
  client : ∀ p, holds .client p → unsent p ∨ p ∈ cache ∨ holds .server p
  server : ∀ p, holds .server p → p ∈ cache ∨ holds .client p

namespace Owed

variable {live live' : Ptr → Prop} {holds holds' : Side → Ptr → Prop} {unsent unsent' : Ptr → Prop}
  {cache : List Ptr} {p : Ptr}

section

variable (owed : Owed live holds unsent cache)

include owed

theorem same (lives : ∀ q, live' q → live q) : Owed live' holds unsent cache :=
  ⟨fun q isLive => owed.owned q (lives q isLive), owed.client, owed.server⟩

theorem change {cache' : List Ptr} (lives : ∀ q, q ≠ p → live' q → live q)
    (keeps : ∀ side q, q ≠ p → (holds' side q ↔ holds side q))
    (unsents : ∀ q, q ≠ p → unsent q → unsent' q) (listed : ∀ q, q ≠ p → q ∈ cache → q ∈ cache')
    (owned : live' p → ∃ side, holds' side p)
    (client : holds' .client p → unsent' p ∨ p ∈ cache' ∨ holds' .server p)
    (server : holds' .server p → p ∈ cache' ∨ holds' .client p) :
    Owed live' holds' unsent' cache' where
  owned := by
    intro q isLive
    by_cases here : q = p
    · subst here
      exact owned isLive
    · obtain ⟨side, held⟩ := owed.owned q (lives q here isLive)
      exact ⟨side, (keeps side q here).mpr held⟩
  client := by
    intro q held
    by_cases here : q = p
    · subst here
      exact client held
    rcases owed.client q ((keeps .client q here).mp held) with notSent | waits | sent
    · exact .inl (unsents q here notSent)
    · exact .inr (.inl (listed q here waits))
    · exact .inr (.inr ((keeps .server q here).mpr sent))
  server := by
    intro q held
    by_cases here : q = p
    · subst here
      exact server held
    · rcases owed.server q ((keeps .server q here).mp held) with waits | mine
      · exact .inl (listed q here waits)
      · exact .inr ((keeps .client q here).mpr mine)

theorem gain (lives : ∀ q, live' q → q = p ∨ live q)
    (clients : ∀ q, holds' .client q ↔ q = p ∨ holds .client q)
    (servers : ∀ q, holds' .server q ↔ holds .server q)
    (unsents : ∀ q, q = p ∨ unsent q → unsent' q) : Owed live' holds' unsent' cache := by
  have mine : holds' .client p := (clients p).mpr (.inl rfl)
  refine owed.change (fun q other isLive => (lives q isLive).resolve_left other) ?_
    (fun q _ notSent => unsents q (.inr notSent)) (fun _ _ => id) (fun _ => ⟨.client, mine⟩)
    (fun _ => .inl (unsents p (.inl rfl))) fun _ => .inr mine
  intro side q other
  cases side with
  | client => rw [clients q, or_iff_right other]
  | server => exact servers q

theorem share (mine : holds .client p) (clients : ∀ q, holds' .client q ↔ holds .client q)
    (servers : ∀ q, holds' .server q ↔ q = p ∨ holds .server q)
    (unsents : ∀ q, unsent q → q = p ∨ unsent' q) : Owed live holds' unsent' cache := by
  have still : holds' .client p := (clients p).mpr mine
  refine owed.change (fun _ _ => id) ?_
    (fun q other notSent => (unsents q notSent).resolve_left other) (fun _ _ => id)
    (fun _ => ⟨.client, still⟩) (fun _ => .inr (.inr ((servers p).mpr (.inl rfl)))) fun _ => .inr still
  intro side q other
  cases side with
  | client => exact clients q
  | server => rw [servers q, or_iff_right other]

theorem list (keeps : ∀ side q, q ≠ p → (holds' side q ↔ holds side q))
    (unsents : ∀ q, q ≠ p → unsent q → unsent' q) (still : ∃ side, holds' side p) :
    Owed live holds' unsent' (cache ++ [p]) := by
  have listed : p ∈ cache ++ [p] := mem_append_right _ mem_cons_self
  exact owed.change (fun _ _ => id) keeps unsents (fun _ _ => mem_append_left _) (fun _ => still)
    (fun _ => .inr (.inl listed)) fun _ => .inl listed

theorem freeCached (lives : ∀ q, live' q → live q ∧ q ≠ p)
    (keeps : ∀ side q, q ≠ p → (holds' side q ↔ holds side q))
    (unsents : ∀ q, q ≠ p → unsent q → unsent' q) (unheld : ∀ side, ¬ holds' side p) :
    Owed live' holds' unsent' (cache.erase p) := by
  refine owed.change (fun q _ isLive => (lives q isLive).1) keeps unsents
    (fun q other => (mem_erase_of_ne other).mpr) (fun isLive => ?_)
    (fun held => absurd held (unheld .client)) fun held => absurd held (unheld .server)
  exact absurd rfl (lives p isLive).2

end

end Owed

variable {heap : Heap RpcBuffer}

theorem Ledger.alone {cache : List Ptr} {trace : List Note} {holds : Side → Ptr → Prop}
    {side other : Side} {p : Ptr} (ledger : Ledger heap cache trace holds) (mine : holds side p)
    (listed : p ∈ cache) (different : other ≠ side) : ¬ holds other p := by
  obtain ⟨first, -, lets⟩ := ledger.waits p listed
  have notMine : first ≠ side := fun same => lets (same ▸ mine)
  rw [Side.eq_of_ne different notMine]
  exact lets

/-! ## The steps that leave a buffer behind -/

def keepsData (heap : Heap RpcBuffer) (rpc : Rpc) (what : Access) : Bool :=
  match access heap rpc what with
  | .ok (next, _) => next.data = rpc.data
  | .error _ => true

/-- The step is not one of those after which a buffer waits for a side that does not come:
giving up a message with a buffer, forgetting one, and allocating a buffer that the other
side does not know. -/
def closes (s : State) : Action → Bool
  | .use c what =>
    match s.clients c with
    | .returned rpc _ => keepsData s.heap rpc what
    | _ => true
  | .send c _ =>
    match s.clients c with
    | .calling rpc 0 => rpc.data.isNone
    | _ => true
  | .handle j what =>
    match s.jobs j with
    | .received rpc => keepsData s.heap rpc what
    | _ => true
  | .dismiss j =>
    match s.jobs j with
    | .received rpc => rpc.data.isNone
    | _ => true
  | _ => true

def State.Balanced (s : State) : Prop :=
  Owed s.heap.Live (Holds s.clientData s.jobData s.queued) (fun p => ∃ c, s.unsentData c = some p)
    s.gcCache

namespace State.Balanced

variable {s : State} {c j : Nat} {rpc : Rpc} {p : Ptr}

theorem initial : State.init.Balanced where
  owned := by
    rintro p ⟨b, found⟩
    cases found
  client := by
    rintro p ⟨c, held⟩
    cases held
  server := by
    rintro p (member | ⟨j, held⟩)
    · cases member
    · cases held

theorem keepHeap (balanced : s.Balanced) (same : SameLive s.heap heap) :
    State.Balanced { s with heap := heap } :=
  Owed.same balanced fun q => (same.live q).mp

variable {client : Client} {job : Nat → Option Ptr} {queued : List Ptr}

theorem keepClient (balanced : s.Balanced) (same : SameLive s.heap heap)
    (data : client.data = (s.clients c).data) (unsent : client.unsent = (s.clients c).unsent) :
    ({ s with heap := heap }.setClient c client).Balanced := by
  have clients : ({ s with heap := heap }.setClient c client).clientData = s.clientData := by
    rw [clientData_setClient, data]
    exact update_eq_self c s.clientData
  have unsents : ({ s with heap := heap }.setClient c client).unsentData = s.unsentData := by
    rw [unsentData_setClient, unsent]
    exact update_eq_self c s.unsentData
  unfold State.Balanced
  rw [clients, unsents]
  exact Owed.same balanced fun q => (same.live q).mp

theorem gainClient (safe : Safe s) (balanced : s.Balanced) (gains : Gains s.heap heap p)
    (empty : (s.clients c).data = none) (data : client.data = some p)
    (unsent : client.unsent = some p) : ({ s with heap := heap }.setClient c client).Balanced := by
  have noData : s.clientData c = none := empty
  unfold State.Balanced
  rw [clientData_setClient, unsentData_setClient, data, unsent]
  refine Owed.gain balanced (fun q => (gains.live q).mp) (fun q => ?_) (fun q => Iff.rfl) ?_
  · constructor
    · rintro ⟨c', held⟩
      rcases update_eq_some held with ⟨-, new⟩ | ⟨-, old⟩
      · exact .inl (Option.some.inj new).symm
      · exact .inr ⟨c', old⟩
    rintro (rfl | ⟨c', held⟩)
    · exact ⟨c, update_self ..⟩
    have other : c' ≠ c := by
      rintro rfl
      rw [noData] at held
      cases held
    exact ⟨c', by rw [update_of_ne other]; exact held⟩
  rintro q (rfl | ⟨c', notSent⟩)
  · exact ⟨c, update_self ..⟩
  have other : c' ≠ c := by
    rintro rfl
    have held := (safe.apart.unsent c' q notSent).1
    rw [noData] at held
    cases held
  exact ⟨c', by rw [update_of_ne other]; exact notSent⟩

theorem accessClient (safe : Safe s) (balanced : s.Balanced) {result : Rpc × Heap RpcBuffer}
    (accessed : Accessed s.heap rpc result) (before : (s.clients c).data = rpc.data)
    (data : client.data = result.1.data) (unsent : client.unsent = client.data)
    (notSent : (s.clients c).unsent = (s.clients c).data) :
    ({ s with heap := result.2 }.setClient c client).Balanced := by
  rcases accessed with ⟨kept, same⟩ | ⟨empty, p, got, gains⟩
  · have kept' : client.data = (s.clients c).data := by rw [data, kept, before]
    exact balanced.keepClient same kept' (by rw [unsent, notSent, kept'])
  · have data' : client.data = some p := data.trans got
    exact balanced.gainClient safe gains (before.trans empty) data' (unsent.trans data')

theorem keepJob (balanced : s.Balanced) {job : Job} (same : SameLive s.heap heap)
    (data : job.data = (s.jobs j).data) : ({ s with heap := heap }.setJob j job).Balanced := by
  have jobs : ({ s with heap := heap }.setJob j job).jobData = s.jobData := by
    rw [jobData_setJob, data]
    exact update_eq_self j s.jobData
  unfold State.Balanced
  rw [jobs]
  exact Owed.same balanced fun q => (same.live q).mp

theorem send (balanced : s.Balanced) {count : Nat} (calling : s.clients c = .calling rpc count) :
    State.Balanced ({ s with queue := s.queue ++ [rpc] }.setClient c (.waiting rpc)) := by
  have data : s.clientData c = rpc.data := by
    show (s.clients c).data = rpc.data
    rw [calling]
    rfl
  have notSent : s.unsentData c = rpc.data := by
    show (s.clients c).unsent = rpc.data
    rw [calling]
    rfl
  unfold State.Balanced
  rw [clientData_send calling, unsentData_send, queued_send]
  cases has : rpc.data with
  | none =>
    rw [has] at notSent
    rw [Option.toList_none, append_nil, ← notSent, update_eq_self]
    exact balanced
  | some p =>
    rw [has] at data notSent
    refine Owed.share balanced ⟨c, data⟩ (fun q => Iff.rfl) (fun q => ?_) ?_
    · constructor
      · rintro (member | job)
        · rcases mem_append.mp member with old | new
          · exact .inr (.inl old)
          · exact .inl (mem_singleton.mp new)
        · exact .inr (.inr job)
      rintro (rfl | member | job)
      · exact .inl (mem_append_right _ mem_cons_self)
      · exact .inl (mem_append_left _ member)
      · exact .inr job
    rintro q ⟨c', found⟩
    by_cases here : c' = c
    · subst here
      exact .inl (Option.some.inj (found.symm.trans notSent))
    · exact .inr ⟨c', by rw [update_of_ne here]; exact found⟩

theorem recv (balanced : s.Balanced) {rest : List Rpc} (free : s.jobs j = .none)
    (queue : s.queue = rpc :: rest) :
    State.Balanced ({ s with queue := rest }.setJob j (.received rpc)) := by
  have empty : s.jobData j = none := by
    show (s.jobs j).data = none
    rw [free]
    rfl
  have jobs : ({ s with queue := rest }.setJob j (.received rpc)).jobData
      = update s.jobData j rpc.data := jobData_setJob _ _ _
  have queued : s.queued = rpc.data.toList ++ rest.filterMap Rpc.data := by
    cases has : rpc.data <;> simp [State.queued, queue, has]
  have moved : Holds s.clientData (update s.jobData j rpc.data) (rest.filterMap Rpc.data)
      = Holds s.clientData s.jobData s.queued := by
    funext side q
    cases side with
    | client => rfl
    | server =>
      apply propext
      constructor
      · rintro (member | ⟨j', held⟩)
        · exact .inl (queued ▸ mem_append_right _ member)
        · rcases update_eq_some held with ⟨-, new⟩ | ⟨-, old⟩
          · exact .inl (queued ▸ mem_append_left _ (by rw [new]; exact mem_cons_self))
          · exact .inr ⟨j', old⟩
      rintro (member | ⟨j', held⟩)
      · rw [queued] at member
        rcases mem_append.mp member with new | old
        · exact .inr ⟨j, by rw [update_self]; exact Option.mem_toList.mp new⟩
        · exact .inl old
      have other : j' ≠ j := by
        rintro rfl
        rw [empty] at held
        cases held
      exact .inr ⟨j', by rw [update_of_ne other]; exact held⟩
  unfold State.Balanced
  rw [jobs]
  show Owed s.heap.Live (Holds s.clientData _ (rest.filterMap Rpc.data)) _ s.gcCache
  rw [moved]
  exact balanced

theorem holds_dropClient_iff {client : Nat → Option Ptr} {side : Side} {q : Ptr}
    (held : client c = some p) (other : q ≠ p) :
    Holds (update client c none) job queued side q ↔ Holds client job queued side q := by
  refine ⟨Apart.holds_dropClient, ?_⟩
  cases side with
  | server => exact id
  | client =>
    rintro ⟨c', holds⟩
    have elsewhere : c' ≠ c := by
      rintro rfl
      exact other (Option.some.inj (holds.symm.trans held))
    exact ⟨c', by rw [update_of_ne elsewhere]; exact holds⟩

theorem holds_dropJob_iff {client : Nat → Option Ptr} {side : Side} {q : Ptr}
    (held : job j = some p) (other : q ≠ p) :
    Holds client (update job j none) queued side q ↔ Holds client job queued side q := by
  refine ⟨Apart.holds_dropJob, ?_⟩
  cases side with
  | client => exact id
  | server =>
    rintro (member | ⟨j', holds⟩)
    · exact .inl member
    have elsewhere : j' ≠ j := by
      rintro rfl
      exact other (Option.some.inj (holds.symm.trans held))
    exact .inr ⟨j', by rw [update_of_ne elsewhere]; exact holds⟩

theorem deinitClient (safe : Safe s) (balanced : s.Balanced) (held : (s.clients c).data = rpc.data)
    (sent : (s.clients c).unsent = none) :
    Meets IsUseAfterFree State.Balanced (do
      let next ← rpcDeinit s .client rpc
      .ok (next.setClient c .idle)) := by
  cases has : rpc.data with
  | none =>
    rw [has] at held
    rw [rpcDeinit, has]
    exact balanced.keepClient SameLive.refl held.symm sent.symm
  | some p =>
    rw [has] at held
    have mine : s.clientData c = some p := held
    have live := safe.client_live held
    -- the message was sent, so no client has the buffer unsent
    have notUnsent : ¬ ∃ c', s.unsentData c' = some p := by
      rintro ⟨c', found⟩
      have same := safe.apart.clients c' c p (safe.apart.unsent c' p found).1 mine
      rw [same] at found
      exact absurd (sent.symm.trans found) (by simp)
    have unsents : ∀ q, q ≠ p → (∃ c', s.unsentData c' = some q) →
        ∃ c', update s.unsentData c none c' = some q := by
      rintro q other ⟨c', found⟩
      have elsewhere : c' ≠ c := by
        rintro rfl
        exact absurd (sent.symm.trans found) (by simp)
      exact ⟨c', by rw [update_of_ne elsewhere]; exact found⟩
    refine (rpcDeinit_meets .client has live safe.ledger.cached).bind ?_
    rintro next (⟨listed, rfl⟩ | ⟨unlisted, rfl⟩)
    · show State.Balanced _
      unfold State.Balanced
      rw [clientData_setClient, unsentData_setClient]
      refine Owed.freeCached balanced (fun q => (Heap.live_free live).mp)
        (fun side q => holds_dropClient_iff mine) unsents ?_
      intro side stillHeld
      cases side with
      | client => exact safe.apart.not_holds_dropClient mine stillHeld
      | server =>
        have mine' : Holds s.clientData s.jobData s.queued .client p := ⟨c, mine⟩
        have alone : ¬ Holds s.clientData s.jobData s.queued .server p :=
          safe.ledger.alone mine' listed (by decide)
        exact alone stillHeld
    · show State.Balanced _
      unfold State.Balanced
      rw [clientData_setClient, unsentData_setClient]
      refine Owed.list balanced (fun side q => holds_dropClient_iff mine) unsents ?_
      rcases Owed.client balanced p ⟨c, mine⟩ with notSent | listed | other
      · exact absurd notSent notUnsent
      · exact absurd listed unlisted
      · exact ⟨.server, other⟩

theorem deinitJob (safe : Safe s) (balanced : s.Balanced) (held : (s.jobs j).data = rpc.data) :
    Meets IsUseAfterFree State.Balanced (do
      let next ← rpcDeinit s .server rpc
      .ok (next.setJob j .none)) := by
  cases has : rpc.data with
  | none =>
    rw [has] at held
    rw [rpcDeinit, has]
    exact balanced.keepJob SameLive.refl held.symm
  | some p =>
    rw [has] at held
    have mine : s.jobData j = some p := held
    have live := safe.job_live held
    refine (rpcDeinit_meets .server has live safe.ledger.cached).bind ?_
    rintro next (⟨listed, rfl⟩ | ⟨unlisted, rfl⟩)
    · show State.Balanced _
      unfold State.Balanced
      rw [jobData_setJob]
      refine Owed.freeCached balanced (fun q => (Heap.live_free live).mp)
        (fun side q => holds_dropJob_iff mine) (fun q _ notSent => notSent) ?_
      intro side stillHeld
      cases side with
      | client =>
        have mine' : Holds s.clientData s.jobData s.queued .server p := .inr ⟨j, mine⟩
        have alone : ¬ Holds s.clientData s.jobData s.queued .client p :=
          safe.ledger.alone mine' listed (by decide)
        exact alone stillHeld
      | server => exact safe.apart.not_holds_dropJob mine stillHeld
    · show State.Balanced _
      unfold State.Balanced
      rw [jobData_setJob]
      refine Owed.list balanced (fun side q => holds_dropJob_iff mine)
        (fun q _ notSent => notSent) ?_
      rcases Owed.server balanced p (.inr ⟨j, mine⟩) with listed | other
      · exact absurd listed unlisted
      · exact ⟨.client, other⟩

end State.Balanced

theorem Accessed.keeps {rpc : Rpc} {what : Access} {result : Rpc × Heap RpcBuffer}
    (accessed : Accessed heap rpc result) (ok : access heap rpc what = .ok result)
    (kept : keepsData heap rpc what = true) :
    result.1.data = rpc.data ∧ SameLive heap result.2 := by
  have same : result.1.data = rpc.data := by simpa [keepsData, ok] using kept
  rcases accessed with ⟨-, sameLive⟩ | ⟨empty, p, got, -⟩
  · exact ⟨same, sameLive⟩
  · have none_eq : none = some p := empty.symm.trans (same.symm.trans got)
    cases none_eq

theorem State.Balanced.moves {s s' : State} {a : Action} (safe : Safe s) (balanced : s.Balanced)
    (closed : closes s a = true) (moves : Moves s a s') : s'.Balanced := by
  cases moves with
  | stay => exact balanced
  | heap same => exact balanced.keepHeap same
  | init idle accessed =>
    exact balanced.accessClient safe accessed (by rw [idle]; rfl) rfl rfl (by rw [idle]; rfl)
  | prepare prepared accessed =>
    exact balanced.accessClient safe accessed (by rw [prepared]; rfl) rfl rfl
      (by rw [prepared]; rfl)
  | inspect returned accessed ok =>
    obtain ⟨kept, same⟩ := accessed.keeps ok (by simpa [closes, returned] using closed)
    exact balanced.keepClient same (by rw [returned]; exact kept) (by rw [returned]; rfl)
  | call prepared =>
    exact balanced.keepClient SameLive.refl (by rw [prepared]; rfl) (by rw [prepared]; rfl)
  | @giveUp _ _ rpc calling =>
    have empty : rpc.data = none := by simpa [closes, calling] using closed
    exact balanced.keepClient SameLive.refl (by rw [calling]; rfl)
      (by rw [calling]; exact empty.symm)
  | send calling => exact balanced.send calling
  | retry calling =>
    exact balanced.keepClient SameLive.refl (by rw [calling]; rfl) (by rw [calling]; rfl)
  | wake waiting same =>
    exact balanced.keepClient same (by rw [waiting]; rfl) (by rw [waiting]; rfl)
  | @deinit c rpc _ _ returned ok =>
    have held : (s.clients c).data = rpc.data := by
      rw [returned]
      rfl
    exact (balanced.deinitClient safe held (by rw [returned]; rfl)).ok (by rw [ok]; rfl)
  | recv free queue => exact balanced.recv free queue
  | handle received accessed ok =>
    obtain ⟨kept, same⟩ := accessed.keeps ok (by simpa [closes, received] using closed)
    exact balanced.keepJob same (by rw [received]; exact kept)
  | reply received same => exact balanced.keepJob same (by rw [received]; rfl)
  | @finish j rpc _ replying ok =>
    have held : (s.jobs j).data = rpc.data := by
      rw [replying]
      rfl
    exact (balanced.deinitJob safe held).ok (by rw [ok]; rfl)
  | @dismiss _ rpc received =>
    have empty : rpc.data = none := by simpa [closes, received] using closed
    exact balanced.keepJob SameLive.refl (by rw [received]; exact empty.symm)

theorem balanced_step {queueCount : Nat} {s : State} (safe : Safe s) (balanced : s.Balanced)
    (a : Action) (closed : closes s a = true) :
    Meets IsUseAfterFree State.Balanced (step queueCount s a) :=
  (step_moves safe a).mono fun _ moves => balanced.moves safe closed moves

/-! ## Whole runs -/

/-- No call is in progress: no client is in one, the queue is empty and the task has answered
or forgotten what it received. -/
def State.Quiescent (s : State) : Prop :=
  (∀ c, s.clients c = .idle) ∧ s.queue = [] ∧ ∀ j, s.jobs j = .none

/-- **When no call is in progress, the list is empty and no buffer is allocated,** in every run
in which the calls that have a buffer are sent and answered. -/
theorem quiescent_nothing_left {queueCount : Nat} {s : State}
    (run : Reaches (step queueCount) (fun s a => closes s a = true) State.init s) (quiescent : s.Quiescent) :
    s.gcCache = [] ∧ ∀ p, ¬ s.heap.Live p := by
  obtain ⟨⟨safe, balanced⟩, -⟩ := run.meets ⟨Safe.initial, State.Balanced.initial⟩
    fun s a inv closed => (safe_step inv.1 a).and (balanced_step inv.1 inv.2 a closed)
  obtain ⟨idle, empty, done⟩ := quiescent
  have nothing : ∀ p, ¬ s.heap.Live p := by
    intro p live
    obtain ⟨side, held⟩ := Owed.owned balanced p live
    cases side with
    | client =>
      obtain ⟨c, held⟩ := held
      rw [State.clientData, idle c] at held
      cases held
    | server =>
      rcases held with member | ⟨j, held⟩
      · rw [State.queued, empty] at member
        cases member
      · rw [State.jobData, done j] at held
        cases held
  refine ⟨eq_nil_iff_forall_not_mem.mpr fun p listed => ?_, nothing⟩
  exact nothing p (safe.ledger.cached p listed)

theorem quiescent_nothing_left_syncCall :
    ∃ s, Reaches (step 8) (fun s a => closes s a = true) State.init s ∧ s.Quiescent ∧
      s.gcCache = [] ∧ ∀ p, ¬ s.heap.Live p := by
  have ran : syncCall.foldlM (checked (step 8) fun s a => closes s a = true) State.init =
      some _ := rfl
  have run := reaches_checked ran
  refine ⟨_, run, ?_, quiescent_nothing_left run ?_⟩
  all_goals
    refine ⟨fun c => ?_, rfl, fun j => ?_⟩
    · cases c <;> rfl
    · cases j <;> rfl

/-- An asynchronous call with a parameter. -/
def unknownCommand : List Action :=
  [.init 0 1 7 0, .use 0 (.put [5] 1 true), .call 0 3, .send 0 true, .wait 0 false, .deinit 0,
    .recv 0, .dismiss 0]

def fullQueue : List Action :=
  [.init 1 0 7 0, .call 1 3, .send 1 true, .init 0 1 7 0, .use 0 (.put [5] 1 true), .call 0 3,
    .send 0 false, .send 0 false, .deinit 0, .recv 0, .reply 0, .finish 0, .wait 1 false, .deinit 1]

/-- **A buffer stays on the list** when the command is unknown, and when the queue is full. -/
theorem async_buffers_stay :
    (∃ s, unknownCommand.foldlM (step 1) State.init = .ok s ∧ s.Quiescent ∧
      s.gcCache = [⟨1, 0⟩]) ∧
    ∃ s, fullQueue.foldlM (step 1) State.init = .ok s ∧ s.Quiescent ∧ s.gcCache = [⟨1, 0⟩] := by
  refine ⟨⟨_, rfl, ⟨fun c => ?_, rfl, fun j => ?_⟩, rfl⟩,
    ⟨_, rfl, ⟨fun c => ?_, rfl, fun j => ?_⟩, rfl⟩⟩
  · cases c <;> rfl
  · cases j <;> rfl
  · rcases c with _ | _ | c <;> rfl
  · cases j <;> rfl

end Phy6212.UService
