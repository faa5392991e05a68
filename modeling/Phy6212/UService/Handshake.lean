import Phy6212.Runs.Faults
import Phy6212.UService.Ledger

/-!
# The buffer of a call is freed by the second side

No two clients hold one buffer, and the task holds it at most once (`Apart`).
-/

namespace Phy6212.UService

open Function List Pointers Runs

def IsUseAfterFree (fault : Fault) : Prop := ∃ p, fault = .useAfterFree p

/-! ## What the functions do with live buffers -/

variable {heap : Heap RpcBuffer} {rpc : Rpc} {p : Ptr}

theorem touch_live (live : heap.Live p) : ∃ b, touch heap p = .ok b := by
  obtain ⟨b, found⟩ := live
  exact ⟨b, by rw [touch, found]⟩

theorem meets_touch {α : Type} {post : α → Prop} {next : RpcBuffer → Except Fault α}
    (live : heap.Live p) (continues : ∀ b, Meets IsUseAfterFree post (next b)) :
    Meets IsUseAfterFree post (touch heap p >>= next) := by
  obtain ⟨b, ok⟩ := touch_live live
  rw [ok]
  exact continues b

theorem rpcBufferPut_meets (live : heap.Live p) (data : List UInt8) (room : Bool) :
    Meets IsUseAfterFree (fun result => SameLive heap result.2)
      (rpcBufferPut heap p data room) := by
  refine meets_touch live ?_
  intro b
  cases room with
  | true => exact sameLive_write
  | false => exact SameLive.refl

/-- What the owner of an `rpc_t` has done: it has used its buffer, or it had none and has
allocated one. -/
def Accessed (heap : Heap RpcBuffer) (rpc : Rpc) (result : Rpc × Heap RpcBuffer) : Prop :=
  (result.1.data = rpc.data ∧ SameLive heap result.2) ∨
    (rpc.data = none ∧ ∃ p, result.1.data = some p ∧ Gains heap result.2 p)

section

variable (live : ∀ p, rpc.data = some p → heap.Live p)

include live

theorem rpcPutBuffer_meets (data : List UInt8) (addr : Nat) (room : Bool) :
    Meets IsUseAfterFree (fun result => Accessed heap rpc result.2)
      (rpcPutBuffer heap rpc data addr room) := by
  unfold rpcPutBuffer
  split
  · exact .inl ⟨rfl, SameLive.refl⟩
  split
  · next p has =>
    refine (rpcBufferPut_meets (live p has) data room).bind ?_
    intro result same
    exact .inl ⟨rfl, same⟩
  rename_i none
  split
  · exact .inl ⟨rfl, SameLive.refl⟩
  · next p next got =>
    have gains := gains_alloc got
    refine (rpcBufferPut_meets ((gains.live p).mpr (.inl rfl)) data room).bind ?_
    intro result same
    exact .inr ⟨none, p, rfl, gains.same same⟩

theorem rpcGetBuffer_meets :
    Meets IsUseAfterFree (fun result => SameLive heap result.2) (rpcGetBuffer heap rpc) := by
  unfold rpcGetBuffer
  split
  · exact SameLive.refl
  rename_i p has
  refine meets_touch (live p has) ?_
  intro b
  split
  · rintro ⟨q, fault⟩
    cases fault
  split
  · rintro ⟨q, fault⟩
    cases fault
  · exact sameLive_write

theorem rpcPutReset_meets : Meets IsUseAfterFree (SameLive heap) (rpcPutReset heap rpc) := by
  unfold rpcPutReset
  split
  · exact SameLive.refl
  rename_i p has
  refine meets_touch (live p has) ?_
  intro b
  split
  · exact SameLive.refl
  · exact sameLive_write

theorem rpcGetReset_meets : Meets IsUseAfterFree (SameLive heap) (rpcGetReset heap rpc) := by
  unfold rpcGetReset
  split
  · exact SameLive.refl
  · next p has =>
    refine meets_touch (live p has) ?_
    intro b
    exact sameLive_write

theorem access_meets (what : Access) :
    Meets IsUseAfterFree (Accessed heap rpc) (access heap rpc what) := by
  cases what with
  | put data addr room =>
    refine (rpcPutBuffer_meets live data addr room).bind ?_
    intro result accessed
    exact accessed
  | get =>
    refine (rpcGetBuffer_meets live).bind ?_
    intro result same
    exact .inl ⟨rfl, same⟩
  | putReset =>
    refine (rpcPutReset_meets live).bind ?_
    intro result same
    exact .inl ⟨rfl, same⟩
  | getReset =>
    refine (rpcGetReset_meets live).bind ?_
    intro result same
    exact .inl ⟨rfl, same⟩

end

theorem rpcInit_cases (heap : Heap RpcBuffer) (addr cmdId : Nat) (timeoutMs : Int) :
    Accessed heap {} (rpcInit heap addr cmdId timeoutMs).2 := by
  unfold rpcInit
  split
  · exact .inl ⟨rfl, SameLive.refl⟩
  split
  · exact .inl ⟨rfl, SameLive.refl⟩
  · next p next got =>
    exact .inr ⟨rfl, p, rfl, (gains_alloc got).same sameLive_write⟩

theorem rpcInit_failed (heap : Heap RpcBuffer) (addr cmdId : Nat) (timeoutMs : Int)
    (failed : (rpcInit heap addr cmdId timeoutMs).1 ≠ 0) :
    SameLive heap (rpcInit heap addr cmdId timeoutMs).2.2 := by
  unfold rpcInit at failed ⊢
  split
  · exact SameLive.refl
  rename_i sync
  rw [if_neg sync] at failed
  split
  · exact SameLive.refl
  · next p next got =>
    rw [got] at failed
    exact absurd rfl failed

theorem rpcWait_meets (live : ∀ p, rpc.data = some p → heap.Live p) (timeout : Bool) :
    Meets IsUseAfterFree (fun result => SameLive heap result.2) (rpcWait heap rpc timeout) := by
  unfold rpcWait
  split
  · exact SameLive.refl
  rename_i p has
  refine meets_touch (live p has) ?_
  intro b
  split
  · exact SameLive.refl
  · exact sameLive_write
  · split
    · exact SameLive.refl
    · exact SameLive.refl

theorem rpcSignal_meets (live : ∀ p, rpc.data = some p → heap.Live p) :
    Meets IsUseAfterFree (SameLive heap) (rpcSignal heap rpc) := by
  unfold rpcSignal
  split
  · exact SameLive.refl
  rename_i p has
  refine meets_touch (live p has) ?_
  intro b
  split
  · exact SameLive.refl
  · exact sameLive_write

/-! ## The list -/

theorem gcSearch_eq (live : heap.Live p) {cache : List Ptr} (cached : ∀ q ∈ cache, heap.Live q) :
    gcSearch heap p cache = .ok (if p ∈ cache then some p else none) := by
  induction cache with
  | nil => rfl
  | cons q rest ih =>
    have liveQ := cached q mem_cons_self
    unfold gcSearch
    by_cases same : q.addr = p.addr
    · have equal := liveQ.eq_of_addr live same
      subst equal
      rw [if_pos rfl, if_pos mem_cons_self]
    obtain ⟨b, ok⟩ := touch_live liveQ
    rw [if_neg same, ok]
    show gcSearch heap p rest = _
    rw [ih fun r member => cached r (mem_cons_of_mem _ member)]
    have other : p ≠ q := fun equal => same (by rw [equal])
    simp only [mem_cons, other, false_or]

theorem eraseP_addr (live : heap.Live p) {cache : List Ptr} (cached : ∀ q ∈ cache, heap.Live q) :
    (cache.eraseP fun r => r.addr = p.addr) = cache.erase p := by
  rw [erase_eq_eraseP]
  induction cache with
  | nil => rfl
  | cons q rest ih =>
    have below := ih fun r member => cached r (mem_cons_of_mem _ member)
    by_cases same : q.addr = p.addr
    · have equal := (cached q mem_cons_self).eq_of_addr live same
      subst equal
      simp
    · have other : p ≠ q := fun equal => same (by rw [equal])
      simp only [eraseP_cons, same, decide_false, beq_eq_false_iff_ne.mpr other, cond_false]
      rw [below]

theorem rpcDeinit_meets {s : State} (side : Side) (has : rpc.data = some p)
    (live : s.heap.Live p) (cached : ∀ q ∈ s.gcCache, s.heap.Live q) :
    Meets IsUseAfterFree (fun next =>
      (p ∈ s.gcCache ∧ next = { s with
        heap := s.heap.free p
        gcCache := s.gcCache.erase p
        trace := s.trace ++ [.deinit side p, .freed p] }) ∨
      (p ∉ s.gcCache ∧ next = { s with
        gcCache := s.gcCache ++ [p]
        trace := s.trace ++ [.deinit side p] }))
      (rpcDeinit s side rpc) := by
  unfold rpcDeinit
  rw [has]
  simp only []
  split
  · rintro ⟨q, fault⟩
    cases fault
  rw [gcSearch_eq live cached]
  by_cases listed : p ∈ s.gcCache
  · rw [if_pos listed]
    have freed : Meets IsUseAfterFree _
        (rpcBufferFree s.heap p) :=
      meets_touch live fun _ => rfl
    refine freed.bind ?_
    rintro heap rfl
    exact .inl ⟨listed, by rw [eraseP_addr live cached]⟩
  rw [if_neg listed]
  refine meets_touch live ?_
  intro b
  exact .inr ⟨listed, rfl⟩

/-! ## Who holds a pointer -/

def Client.data : Client → Option Ptr
  | .idle => none
  | .prepared rpc => rpc.data
  | .calling rpc _ => rpc.data
  | .waiting rpc => rpc.data
  | .returned rpc _ => rpc.data

def Client.unsent : Client → Option Ptr
  | .prepared rpc => rpc.data
  | .calling rpc _ => rpc.data
  | _ => none

def Job.data : Job → Option Ptr
  | .none => Option.none
  | .received rpc => rpc.data
  | .replying rpc => rpc.data

def State.clientData (s : State) : Nat → Option Ptr := fun c => (s.clients c).data

def State.unsentData (s : State) : Nat → Option Ptr := fun c => (s.clients c).unsent

def State.jobData (s : State) : Nat → Option Ptr := fun j => (s.jobs j).data

def State.queued (s : State) : List Ptr := s.queue.filterMap Rpc.data

def Holds (client job : Nat → Option Ptr) (queued : List Ptr) : Side → Ptr → Prop
  | .client, p => ∃ c, client c = some p
  | .server, p => p ∈ queued ∨ ∃ j, job j = some p

/-- Nobody shares a pointer with another client or another message, and a pointer that
has not been sent is with its client only. -/
structure Apart (client unsent job : Nat → Option Ptr) (queued cache : List Ptr) : Prop where
  clients : ∀ c c' p, client c = some p → client c' = some p → c = c'
  jobs : ∀ j j' p, job j = some p → job j' = some p → j = j'
  queue : queued.Nodup
  jobQueue : ∀ j p, job j = some p → p ∉ queued
  unsent : ∀ c p, unsent c = some p →
    client c = some p ∧ ¬ Holds client job queued .server p ∧ p ∉ cache

structure Safe (s : State) : Prop where
  apart : Apart s.clientData s.unsentData s.jobData s.queued s.gcCache
  ledger : Ledger s.heap s.gcCache s.trace (Holds s.clientData s.jobData s.queued)

section Views

variable (s : State) (c : Nat)

theorem clientData_setClient (client : Client) :
    (s.setClient c client).clientData = update s.clientData c client.data :=
  comp_update Client.data s.clients c client

theorem unsentData_setClient (client : Client) :
    (s.setClient c client).unsentData = update s.unsentData c client.unsent :=
  comp_update Client.unsent s.clients c client

theorem jobData_setJob (j : Nat) (job : Job) :
    (s.setJob j job).jobData = update s.jobData j job.data :=
  comp_update Job.data s.jobs j job

variable {s} in
theorem clientData_send {c : Nat} {count : Nat} (calling : s.clients c = .calling rpc count) :
    ({ s with queue := s.queue ++ [rpc] }.setClient c (.waiting rpc)).clientData
      = s.clientData := by
  have data : s.clientData c = rpc.data := congrArg Client.data calling
  rw [clientData_setClient]
  show update s.clientData c rpc.data = s.clientData
  rw [← data]
  exact update_eq_self c s.clientData

theorem unsentData_send (rpc : Rpc) :
    ({ s with queue := s.queue ++ [rpc] }.setClient c (.waiting rpc)).unsentData
      = update s.unsentData c none :=
  unsentData_setClient _ _ _

theorem queued_send (rpc : Rpc) :
    ({ s with queue := s.queue ++ [rpc] }.setClient c (.waiting rpc)).queued
      = s.queued ++ rpc.data.toList := by
  show (s.queue ++ [rpc]).filterMap Rpc.data = s.queue.filterMap Rpc.data ++ rpc.data.toList
  cases has : rpc.data with
  | none => simp [has]
  | some p => simp [has]

end Views

/-! ## One pointer moves -/

variable {s : State} {table : Nat → Option Ptr} {i : Nat}

theorem update_eq_some {i' : Nat} {new : Option Ptr} (found : update table i new i' = some p) :
    (i' = i ∧ new = some p) ∨ (i' ≠ i ∧ table i' = some p) := by
  by_cases here : i' = i
  · subst here
    rw [update_self] at found
    exact .inl ⟨rfl, found⟩
  · rw [update_of_ne here] at found
    exact .inr ⟨here, found⟩

theorem of_update_none {i' : Nat} (found : update table i none i' = some p) :
    i' ≠ i ∧ table i' = some p :=
  (update_eq_some found).resolve_left fun here => Option.some_ne_none p here.2.symm

theorem update_apart (apart : ∀ a b q, table a = some q → table b = some q → a = b)
    (fresh : ∀ a, table a ≠ some p) (a b : Nat) (q : Ptr)
    (first : update table i (some p) a = some q) (second : update table i (some p) b = some q) :
    a = b := by
  rcases update_eq_some first with ⟨rfl, new⟩ | ⟨-, old⟩
  · cases new
    rcases update_eq_some second with ⟨rfl, -⟩ | ⟨-, old⟩
    · rfl
    · exact absurd old (fresh b)
  rcases update_eq_some second with ⟨rfl, new⟩ | ⟨-, old'⟩
  · cases new
    exact absurd old (fresh a)
  · exact apart a b q old old'

theorem update_none_apart (apart : ∀ a b q, table a = some q → table b = some q → a = b) (a b : Nat)
    (q : Ptr) (first : update table i none a = some q)
    (second : update table i none b = some q) : a = b :=
  apart a b q (of_update_none first).2 (of_update_none second).2

namespace Apart

variable {client unsent job : Nat → Option Ptr} {queued cache : List Ptr} {c j : Nat}

section

variable (apart : Apart client unsent job queued cache)

include apart

theorem dropUnsent :
    Apart client (update unsent c none) job queued cache where
  clients := apart.clients
  jobs := apart.jobs
  queue := apart.queue
  jobQueue := apart.jobQueue
  unsent := by
    intro c' q found
    exact apart.unsent c' q (of_update_none found).2

theorem clientGains {new : Option Ptr}
    (fresh : ∀ side, ¬ Holds client job queued side p) (unlisted : p ∉ cache)
    (only : ∀ q, new = some q → q = p) :
    Apart (update client c (some p)) (update unsent c new) job queued
      cache where
  clients := update_apart apart.clients fun a held => fresh .client ⟨a, held⟩
  jobs := apart.jobs
  queue := apart.queue
  jobQueue := apart.jobQueue
  unsent := by
    intro c' q found
    rcases update_eq_some found with ⟨rfl, isNew⟩ | ⟨other, old⟩
    · rw [only q isNew, update_self]
      exact ⟨rfl, fresh .server, unlisted⟩
    · rw [update_of_ne other]
      exact apart.unsent c' q old

theorem jobGains (fresh : ∀ side, ¬ Holds client job queued side p) :
    Apart client unsent (update job j (some p)) queued cache where
  clients := apart.clients
  jobs := update_apart apart.jobs fun a held => fresh .server (.inr ⟨a, held⟩)
  queue := apart.queue
  jobQueue := by
    intro j' q found
    rcases update_eq_some found with ⟨-, new⟩ | ⟨-, old⟩
    · cases new
      exact fun member => fresh .server (.inl member)
    · exact apart.jobQueue j' q old
  unsent := by
    intro c' q found
    obtain ⟨mine, notServer, unlisted⟩ := apart.unsent c' q found
    refine ⟨mine, ?_, unlisted⟩
    rintro (member | ⟨j', held⟩)
    · exact notServer (.inl member)
    rcases update_eq_some held with ⟨-, new⟩ | ⟨-, old⟩
    · cases new
      exact fresh .client ⟨c', mine⟩
    · exact notServer (.inr ⟨j', old⟩)

theorem send (mine : unsent c = some p) :
    Apart client (update unsent c none) job (queued ++ [p]) cache := by
  obtain ⟨held, notServer, -⟩ := apart.unsent c p mine
  exact {
    clients := apart.clients
    jobs := apart.jobs
    queue := by
      refine nodup_append.mpr ⟨apart.queue, by simp, ?_⟩
      rintro q old _ new rfl
      exact notServer (.inl (mem_singleton.mp new ▸ old))
    jobQueue := by
      intro j q found member
      rcases mem_append.mp member with old | new
      · exact apart.jobQueue j q found old
      · rw [mem_singleton.mp new] at found
        exact notServer (.inr ⟨j, found⟩)
    unsent := by
      intro c' q found
      obtain ⟨other, old⟩ := of_update_none found
      obtain ⟨mine', notServer', unlisted⟩ := apart.unsent c' q old
      refine ⟨mine', ?_, unlisted⟩
      rintro (member | ⟨j, job⟩)
      · rcases mem_append.mp member with queuedBefore | new
        · exact notServer' (.inl queuedBefore)
        · rw [mem_singleton.mp new] at mine'
          exact other (apart.clients c' c p mine' held)
      · exact notServer' (.inr ⟨j, job⟩) }

end

theorem recv (apart : Apart client unsent job (p :: queued) cache) :
    Apart client unsent (update job j (some p)) queued cache where
  clients := apart.clients
  jobs := update_apart apart.jobs fun a held => apart.jobQueue a p held mem_cons_self
  queue := (nodup_cons.mp apart.queue).2
  jobQueue := by
    intro j' q found member
    rcases update_eq_some found with ⟨-, new⟩ | ⟨-, old⟩
    · cases new
      exact (nodup_cons.mp apart.queue).1 member
    · exact apart.jobQueue j' q old (mem_cons_of_mem _ member)
  unsent := by
    intro c q found
    obtain ⟨mine, notServer, unlisted⟩ := apart.unsent c q found
    refine ⟨mine, ?_, unlisted⟩
    rintro (member | ⟨j', held⟩)
    · exact notServer (.inl (mem_cons_of_mem _ member))
    rcases update_eq_some held with ⟨-, new⟩ | ⟨-, old⟩
    · cases new
      exact notServer (.inl mem_cons_self)
    · exact notServer (.inr ⟨j', old⟩)

variable {cache' : List Ptr}

theorem clientDrops (apart : Apart client unsent job queued cache) (held : client c = some p)
    (listed : ∀ q, q ∈ cache' → q = p ∨ q ∈ cache) :
    Apart (update client c none) (update unsent c none) job queued
      cache' where
  clients := update_none_apart apart.clients
  jobs := apart.jobs
  queue := apart.queue
  jobQueue := apart.jobQueue
  unsent := by
    intro c' q found
    obtain ⟨other, old⟩ := of_update_none found
    obtain ⟨mine, notServer, unlisted⟩ := apart.unsent c' q old
    refine ⟨by rw [update_of_ne other]; exact mine, notServer, ?_⟩
    intro member
    rcases listed q member with rfl | before
    · exact other (apart.clients c' c q mine held)
    · exact unlisted before

theorem holds_dropClient {side : Side} {q : Ptr}
    (held : Holds (update client c none) job queued side q) :
    Holds client job queued side q := by
  cases side with
  | client => exact held.imp fun _ mine => (of_update_none mine).2
  | server => exact held

theorem holds_dropJob {side : Side} {q : Ptr}
    (held : Holds client (update job j none) queued side q) :
    Holds client job queued side q := by
  cases side with
  | client => exact held
  | server => exact Or.imp_right (Exists.imp fun _ mine => (of_update_none mine).2) held

section

variable (apart : Apart client unsent job queued cache)

include apart

theorem jobDrops (listed : ∀ q, q ∈ cache' → job j = some q ∨ q ∈ cache) :
    Apart client unsent (update job j none) queued cache' where
  clients := apart.clients
  jobs := update_none_apart apart.jobs
  queue := apart.queue
  jobQueue := by
    intro j' q found
    exact apart.jobQueue j' q (of_update_none found).2
  unsent := by
    intro c q found
    obtain ⟨mine, notServer, unlisted⟩ := apart.unsent c q found
    refine ⟨mine, fun held => notServer (holds_dropJob held), ?_⟩
    intro member
    rcases listed q member with mine' | before
    · exact notServer (.inr ⟨j, mine'⟩)
    · exact unlisted before

theorem not_holds_dropClient (held : client c = some p) :
    ¬ Holds (update client c none) job queued .client p := by
  rintro ⟨c', still⟩
  obtain ⟨other, old⟩ := of_update_none still
  exact other (apart.clients c' c p old held)

theorem not_holds_dropJob (held : job j = some p) :
    ¬ Holds client (update job j none) queued .server p := by
  rintro (member | ⟨j', still⟩)
  · exact apart.jobQueue j p held member
  · obtain ⟨other, old⟩ := of_update_none still
    exact other (apart.jobs j' j p old held)

end

end Apart

/-! ## Every action keeps the invariant -/

namespace Safe

variable {c j : Nat}

theorem initial : Safe State.init where
  apart := {
    clients := by
      intro c c' p held
      cases held
    jobs := by
      intro j j' p held
      cases held
    queue := nodup_nil
    jobQueue := by
      intro j p held
      cases held
    unsent := by
      intro c p held
      cases held }
  ledger := by
    refine Ledger.empty.keep SameLive.refl ?_
    rintro (_ | _) p held
    · obtain ⟨c, held⟩ := held
      cases held
    · rcases held with held | ⟨j, held⟩
      · cases held
      · cases held

theorem client_live (safe : Safe s) (held : (s.clients c).data = some p) : s.heap.Live p :=
  safe.ledger.held .client p ⟨c, held⟩

theorem job_live (safe : Safe s) (held : (s.jobs j).data = some p) : s.heap.Live p :=
  safe.ledger.held .server p (.inr ⟨j, held⟩)

theorem fresh (safe : Safe s) (gains : Gains s.heap heap p) :
    (∀ side, ¬ Holds s.clientData s.jobData s.queued side p) ∧ p ∉ s.gcCache :=
  ⟨fun side held => gains.fresh (safe.ledger.held side p held),
    fun member => gains.fresh (safe.ledger.cached p member)⟩

theorem keepHeap (safe : Safe s) (same : SameLive s.heap heap) : Safe { s with heap := heap } :=
  ⟨safe.apart, safe.ledger.keep same fun _ _ held => held⟩

variable {client : Client} {result : Rpc × Heap RpcBuffer}

section

variable (safe : Safe s)

include safe

theorem keepClient (same : SameLive s.heap heap) (data : client.data = (s.clients c).data)
    (unsent : client.unsent = (s.clients c).unsent ∨ client.unsent = none) :
    Safe ({ s with heap := heap }.setClient c client) := by
  have tables : ({ s with heap := heap }.setClient c client).clientData = s.clientData := by
    rw [clientData_setClient, data]
    exact update_eq_self c s.clientData
  have apart : Apart s.clientData ({ s with heap := heap }.setClient c client).unsentData
      s.jobData s.queued s.gcCache := by
    rw [unsentData_setClient]
    rcases unsent with kept | dropped
    · rw [kept]
      have self := update_eq_self c s.unsentData
      exact self.symm ▸ safe.apart
    · rw [dropped]
      exact safe.apart.dropUnsent
  constructor
  · rw [tables]
    exact apart
  · rw [tables]
    exact safe.ledger.keep same fun _ _ held => held

theorem gainClient (gains : Gains s.heap heap p) (data : client.data = some p)
    (unsent : client.unsent = some p ∨ client.unsent = none) :
    Safe ({ s with heap := heap }.setClient c client) := by
  obtain ⟨unheld, unlisted⟩ := safe.fresh gains
  constructor
  · rw [clientData_setClient, unsentData_setClient, data]
    refine safe.apart.clientGains unheld unlisted ?_
    intro q new
    rcases unsent with same | none
    · rw [same] at new
      exact (Option.some.inj new).symm
    · rw [none] at new
      cases new
  rw [clientData_setClient, data]
  refine safe.ledger.gain gains ?_
  rintro (_ | _) q held
  · obtain ⟨c', held⟩ := held
    rcases update_eq_some held with ⟨-, new⟩ | ⟨-, old⟩
    · exact .inl (Option.some.inj new).symm
    · exact .inr ⟨c', old⟩
  · exact .inr held

theorem accessClient (accessed : Accessed s.heap rpc result)
    (before : (s.clients c).data = rpc.data) (data : client.data = result.1.data)
    (unsent : (client.unsent = client.data ∧ (s.clients c).unsent = (s.clients c).data) ∨
      client.unsent = none) : Safe ({ s with heap := result.2 }.setClient c client) := by
  rcases accessed with ⟨kept, same⟩ | ⟨-, p, got, gains⟩
  · have kept' : client.data = (s.clients c).data := by rw [data, kept, before]
    refine safe.keepClient same kept' ?_
    rcases unsent with ⟨now, was⟩ | none
    · exact .inl (by rw [now, was, kept'])
    · exact .inr none
  refine safe.gainClient gains (data.trans got) ?_
  rcases unsent with ⟨now, -⟩ | none
  · exact .inl (by rw [now, data, got])
  · exact .inr none

theorem accessJob {job : Job} (accessed : Accessed s.heap rpc result)
    (before : (s.jobs j).data = rpc.data) (data : job.data = result.1.data) :
    Safe ({ s with heap := result.2 }.setJob j job) := by
  rcases accessed with ⟨kept, same⟩ | ⟨-, p, got, gains⟩
  · have tables : ({ s with heap := result.2 }.setJob j job).jobData = s.jobData := by
      rw [jobData_setJob, data, kept, ← before]
      exact update_eq_self j s.jobData
    constructor
    · rw [tables]
      exact safe.apart
    · rw [tables]
      exact safe.ledger.keep same fun _ _ held => held
  obtain ⟨unheld, -⟩ := safe.fresh gains
  constructor
  · rw [jobData_setJob, data, got]
    exact safe.apart.jobGains unheld
  rw [jobData_setJob, data, got]
  refine safe.ledger.gain gains ?_
  rintro (_ | _) q held
  · exact .inr held
  rcases held with member | ⟨j', held⟩
  · exact .inr (.inl member)
  · rcases update_eq_some held with ⟨-, new⟩ | ⟨-, old⟩
    · exact .inl (Option.some.inj new).symm
    · exact .inr (.inr ⟨j', old⟩)

theorem send {count : Nat} (calling : s.clients c = .calling rpc count) :
    Safe ({ s with queue := s.queue ++ [rpc] }.setClient c (.waiting rpc)) := by
  have tables := clientData_send calling
  have unsents := unsentData_send s c rpc
  have queued := queued_send s c rpc
  cases has : rpc.data with
  | none =>
    rw [has, Option.toList_none, append_nil] at queued
    constructor
    · rw [tables, unsents, queued]
      exact safe.apart.dropUnsent
    · rw [tables, queued]
      exact safe.ledger
  | some p =>
    rw [has, Option.toList_some] at queued
    have mine : s.unsentData c = some p := by
      show (s.clients c).unsent = some p
      rw [calling]
      exact has
    obtain ⟨held, -, unlisted⟩ := safe.apart.unsent c p mine
    constructor
    · rw [tables, unsents, queued]
      exact safe.apart.send mine
    rw [tables, queued]
    refine safe.ledger.share .client ⟨c, held⟩ unlisted ?_
    rintro (_ | _) q held
    · exact .inr held
    rcases held with member | job
    · rcases mem_append.mp member with old | new
      · exact .inr (.inl old)
      · exact .inl (mem_singleton.mp new)
    · exact .inr (.inr job)

theorem recv {rest : List Rpc} (free : s.jobs j = .none) (queue : s.queue = rpc :: rest) :
    Safe ({ s with queue := rest }.setJob j (.received rpc)) := by
  have data : s.jobData j = none := by
    show (s.jobs j).data = none
    rw [free]
    rfl
  cases has : rpc.data with
  | none =>
    have tables : ({ s with queue := rest }.setJob j (.received rpc)).jobData = s.jobData := by
      rw [jobData_setJob]
      show update s.jobData j rpc.data = s.jobData
      rw [has, ← data]
      exact update_eq_self j s.jobData
    have queued : s.queued = rest.filterMap Rpc.data := by
      simp [State.queued, queue, has]
    have apart := safe.apart
    have ledger := safe.ledger
    rw [queued] at apart ledger
    constructor
    · rw [tables]
      exact apart
    · rw [tables]
      exact ledger
  | some p =>
    have tables : ({ s with queue := rest }.setJob j (.received rpc)).jobData
        = update s.jobData j (some p) := by
      rw [jobData_setJob, ← has]
      rfl
    have queued : s.queued = p :: rest.filterMap Rpc.data := by
      simp [State.queued, queue, has]
    have apart := safe.apart
    have ledger := safe.ledger
    rw [queued] at apart ledger
    constructor
    · rw [tables]
      exact apart.recv
    rw [tables]
    refine ledger.keep SameLive.refl ?_
    rintro (_ | _) q held
    · exact held
    rcases held with member | ⟨j', held⟩
    · exact .inl (mem_cons_of_mem _ member)
    · rcases update_eq_some held with ⟨-, new⟩ | ⟨-, old⟩
      · exact .inl (Option.some.inj new ▸ mem_cons_self)
      · exact .inr ⟨j', old⟩

theorem deinitClient (held : (s.clients c).data = rpc.data) :
    Meets IsUseAfterFree Safe (do
      let next ← rpcDeinit s .client rpc
      .ok (next.setClient c .idle)) := by
  cases has : rpc.data with
  | none =>
    rw [has] at held
    rw [rpcDeinit, has]
    exact safe.keepClient SameLive.refl held.symm (.inr rfl)
  | some p =>
    rw [has] at held
    refine (rpcDeinit_meets .client has (safe.client_live held) safe.ledger.cached).bind ?_
    have dropped := safe.apart.not_holds_dropClient held
    rintro next (⟨listed, rfl⟩ | ⟨unlisted, rfl⟩)
    · refine ⟨?_, ?_⟩
      · rw [clientData_setClient, unsentData_setClient]
        exact safe.apart.clientDrops held fun q member => .inr (mem_of_mem_erase member)
      · rw [clientData_setClient]
        exact safe.ledger.freeCached ⟨c, held⟩ listed (fun _ _ => Apart.holds_dropClient) dropped
    refine ⟨?_, ?_⟩
    · rw [clientData_setClient, unsentData_setClient]
      refine safe.apart.clientDrops held ?_
      intro q member
      rcases mem_append.mp member with old | new
      · exact .inr old
      · exact .inl (mem_singleton.mp new)
    · rw [clientData_setClient]
      exact safe.ledger.list ⟨c, held⟩ unlisted (fun _ _ => Apart.holds_dropClient) dropped

theorem dropJob : Safe (s.setJob j .none) := by
  constructor
  · rw [jobData_setJob]
    exact safe.apart.jobDrops fun q member => .inr member
  · rw [jobData_setJob]
    exact safe.ledger.keep SameLive.refl fun _ _ => Apart.holds_dropJob

theorem deinitJob (held : (s.jobs j).data = rpc.data) :
    Meets IsUseAfterFree Safe (do
      let next ← rpcDeinit s .server rpc
      .ok (next.setJob j .none)) := by
  cases has : rpc.data with
  | none =>
    rw [rpcDeinit, has]
    exact safe.dropJob
  | some p =>
    rw [has] at held
    refine (rpcDeinit_meets .server has (safe.job_live held) safe.ledger.cached).bind ?_
    have dropped := safe.apart.not_holds_dropJob held
    rintro next (⟨listed, rfl⟩ | ⟨unlisted, rfl⟩)
    · refine ⟨?_, ?_⟩
      · rw [jobData_setJob]
        exact safe.apart.jobDrops fun q member => .inr (mem_of_mem_erase member)
      · rw [jobData_setJob]
        exact safe.ledger.freeCached (.inr ⟨j, held⟩) listed (fun _ _ => Apart.holds_dropJob)
          dropped
    refine ⟨?_, ?_⟩
    · rw [jobData_setJob]
      refine safe.apart.jobDrops ?_
      intro q member
      rcases mem_append.mp member with old | new
      · exact .inr old
      · exact .inl (mem_singleton.mp new ▸ held)
    · rw [jobData_setJob]
      exact safe.ledger.list (.inr ⟨j, held⟩) unlisted (fun _ _ => Apart.holds_dropJob) dropped

end

end Safe

/-! ## What an action can do -/

/-- What an action can make of a state in which every buffer that is held or on the list is live:
nothing, a change inside the buffers only, or one step of the call or of its reply. -/
inductive Moves (s : State) : Action → State → Prop where
  | stay {a : Action} : Moves s a s
  | heap {a : Action} {heap : Heap RpcBuffer} (same : SameLive s.heap heap) :
      Moves s a { s with heap := heap }
  | init {c addr cmdId : Nat} {timeoutMs : Int} {result : Rpc × Heap RpcBuffer}
      (idle : s.clients c = .idle) (accessed : Accessed s.heap {} result) :
      Moves s (.init c addr cmdId timeoutMs)
        ({ s with heap := result.2 }.setClient c (.prepared result.1))
  | prepare {c : Nat} {what : Access} {rpc : Rpc} {result : Rpc × Heap RpcBuffer}
      (prepared : s.clients c = .prepared rpc) (accessed : Accessed s.heap rpc result) :
      Moves s (.use c what) ({ s with heap := result.2 }.setClient c (.prepared result.1))
  | inspect {c : Nat} {what : Access} {rpc : Rpc} {ret : Int} {result : Rpc × Heap RpcBuffer}
      (returned : s.clients c = .returned rpc ret) (accessed : Accessed s.heap rpc result)
      (ok : access s.heap rpc what = .ok result) :
      Moves s (.use c what) ({ s with heap := result.2 }.setClient c (.returned result.1 ret))
  | call {c count : Nat} {srv : Nat} {rpc : Rpc} (prepared : s.clients c = .prepared rpc) :
      Moves s (.call c srv) (s.setClient c (.calling { rpc with srv := some srv } count))
  | giveUp {c : Nat} {accepted : Bool} {rpc : Rpc} (calling : s.clients c = .calling rpc 0) :
      Moves s (.send c accepted) (s.setClient c (.returned rpc (-1)))
  | send {c count : Nat} {accepted : Bool} {rpc : Rpc} (calling : s.clients c = .calling rpc count) :
      Moves s (.send c accepted) ({ s with queue := s.queue ++ [rpc] }.setClient c (.waiting rpc))
  | retry {c count left : Nat} {accepted : Bool} {rpc : Rpc}
      (calling : s.clients c = .calling rpc count) :
      Moves s (.send c accepted) (s.setClient c (.calling rpc left))
  | wake {c : Nat} {timeout : Bool} {rpc : Rpc} {ret : Int} {heap : Heap RpcBuffer}
      (waiting : s.clients c = .waiting rpc) (same : SameLive s.heap heap) :
      Moves s (.wait c timeout) ({ s with heap := heap }.setClient c (.returned rpc ret))
  | deinit {c : Nat} {rpc : Rpc} {ret : Int} {next : State} (returned : s.clients c = .returned rpc ret)
      (ok : rpcDeinit s .client rpc = .ok next) : Moves s (.deinit c) (next.setClient c .idle)
  | recv {j : Nat} {rpc : Rpc} {rest : List Rpc} (free : s.jobs j = .none)
      (queue : s.queue = rpc :: rest) :
      Moves s (.recv j) ({ s with queue := rest }.setJob j (.received rpc))
  | handle {j : Nat} {what : Access} {rpc : Rpc} {result : Rpc × Heap RpcBuffer}
      (received : s.jobs j = .received rpc) (accessed : Accessed s.heap rpc result)
      (ok : access s.heap rpc what = .ok result) :
      Moves s (.handle j what) ({ s with heap := result.2 }.setJob j (.received result.1))
  | reply {j : Nat} {rpc : Rpc} {heap : Heap RpcBuffer} (received : s.jobs j = .received rpc)
      (same : SameLive s.heap heap) :
      Moves s (.reply j) ({ s with heap := heap }.setJob j (.replying rpc))
  | finish {j : Nat} {rpc : Rpc} {next : State} (replying : s.jobs j = .replying rpc)
      (ok : rpcDeinit s .server rpc = .ok next) : Moves s (.finish j) (next.setJob j .none)
  | dismiss {j : Nat} {rpc : Rpc} (received : s.jobs j = .received rpc) :
      Moves s (.dismiss j) (s.setJob j .none)

theorem rpcDeinit_returns (side : Side) (live : ∀ p, rpc.data = some p → s.heap.Live p)
    (cached : ∀ q ∈ s.gcCache, s.heap.Live q) :
    Meets IsUseAfterFree (fun next => rpcDeinit s side rpc = .ok next) (rpcDeinit s side rpc) := by
  cases has : rpc.data with
  | none =>
    rw [rpcDeinit, has]
    rfl
  | some p => exact (rpcDeinit_meets side has (live p has) cached).returns.mono fun _ => And.right

theorem step_moves {queueCount : Nat} (safe : Safe s) (a : Action) :
    Meets IsUseAfterFree (Moves s a) (step queueCount s a) := by
  have clientLive : ∀ c p, (s.clients c).data = some p → s.heap.Live p :=
    fun _ _ held => safe.client_live held
  have jobLive : ∀ j p, (s.jobs j).data = some p → s.heap.Live p :=
    fun _ _ held => safe.job_live held
  cases a with
  | init c addr cmdId timeoutMs =>
    have accessed := rpcInit_cases s.heap addr cmdId timeoutMs
    have failed := rpcInit_failed s.heap addr cmdId timeoutMs
    simp only [step]
    split
    · next idle =>
      split
      · exact .init idle accessed
      · next nonzero => exact .heap (failed nonzero)
    · exact .stay
  | use c what =>
    have live := clientLive c
    simp only [step]
    split
    · next rpc prepared =>
      rw [prepared] at live
      refine (access_meets live what).bind ?_
      intro result accessed
      exact .prepare prepared accessed
    · next rpc ret returned =>
      rw [returned] at live
      refine (access_meets live what).returns.bind ?_
      rintro result ⟨accessed, ok⟩
      exact .inspect returned accessed ok
    · exact .stay
  | call c srv =>
    simp only [step]
    split
    · next rpc prepared => exact .call prepared
    · exact .stay
  | send c accepted =>
    simp only [step]
    split
    · next rpc calling => exact .giveUp calling
    · next rpc count calling =>
      split
      · exact .send calling
      · exact .retry calling
    · exact .stay
  | wait c timeout =>
    have live := clientLive c
    simp only [step]
    split
    · next rpc waiting =>
      rw [waiting] at live
      refine (rpcWait_meets live timeout).bind ?_
      rintro ⟨ret, heap⟩ same
      cases ret with
      | none => exact .heap same
      | some ret => exact .wake waiting same
    · exact .stay
  | deinit c =>
    have live := clientLive c
    simp only [step]
    split
    · next rpc ret returned =>
      rw [returned] at live
      refine (rpcDeinit_returns .client live safe.ledger.cached).bind ?_
      intro next ok
      exact .deinit returned ok
    · exact .stay
  | recv j =>
    simp only [step]
    split
    · next rpc rest free queue => exact .recv free queue
    · exact .stay
  | handle j what =>
    have live := jobLive j
    simp only [step]
    split
    · next rpc received =>
      rw [received] at live
      refine (access_meets live what).returns.bind ?_
      rintro result ⟨accessed, ok⟩
      exact .handle received accessed ok
    · exact .stay
  | reply j =>
    have live := jobLive j
    simp only [step]
    split
    · next rpc received =>
      rw [received] at live
      refine (rpcSignal_meets live).bind ?_
      intro heap same
      exact .reply received same
    · exact .stay
  | finish j =>
    have live := jobLive j
    simp only [step]
    split
    · next rpc replying =>
      rw [replying] at live
      refine (rpcDeinit_returns .server live safe.ledger.cached).bind ?_
      intro next ok
      exact .finish replying ok
    · exact .stay
  | dismiss j =>
    simp only [step]
    split
    · next rpc received => exact .dismiss received
    · exact .stay

theorem Safe.moves {s' : State} {a : Action} (safe : Safe s) (moves : Moves s a s') : Safe s' := by
  cases moves with
  | stay => exact safe
  | heap same => exact safe.keepHeap same
  | init idle accessed =>
    refine safe.accessClient accessed (by rw [idle]; rfl) rfl (.inl ⟨rfl, ?_⟩)
    rw [idle]
    rfl
  | prepare prepared accessed =>
    refine safe.accessClient accessed (by rw [prepared]; rfl) rfl (.inl ⟨rfl, ?_⟩)
    rw [prepared]
    rfl
  | inspect returned accessed ok =>
    exact safe.accessClient accessed (by rw [returned]; rfl) rfl (.inr rfl)
  | call prepared =>
    refine safe.keepClient SameLive.refl (by rw [prepared]; rfl) (.inl ?_)
    rw [prepared]
    rfl
  | giveUp calling => exact safe.keepClient SameLive.refl (by rw [calling]; rfl) (.inr rfl)
  | send calling => exact safe.send calling
  | retry calling =>
    refine safe.keepClient SameLive.refl (by rw [calling]; rfl) (.inl ?_)
    rw [calling]
    rfl
  | wake waiting same => exact safe.keepClient same (by rw [waiting]; rfl) (.inr rfl)
  | @deinit c rpc _ _ returned ok =>
    have held : (s.clients c).data = rpc.data := by
      rw [returned]
      rfl
    exact (safe.deinitClient held).ok (by rw [ok]; rfl)
  | recv free queue => exact safe.recv free queue
  | handle received accessed ok => exact safe.accessJob accessed (by rw [received]; rfl) rfl
  | @reply _ rpc heap received same =>
    have accessed : Accessed s.heap rpc (rpc, heap) := .inl ⟨rfl, same⟩
    exact safe.accessJob accessed (by rw [received]; rfl) rfl
  | @finish j rpc _ replying ok =>
    have held : (s.jobs j).data = rpc.data := by
      rw [replying]
      rfl
    exact (safe.deinitJob held).ok (by rw [ok]; rfl)
  | dismiss received => exact safe.dropJob

theorem safe_step {queueCount : Nat} (safe : Safe s) (a : Action) :
    Meets IsUseAfterFree Safe (step queueCount s a) :=
  (step_moves safe a).mono fun _ moves => safe.moves moves

/-! ## Whole runs -/

/-- **A buffer is freed at most once, after both sides have called `rpc_deinit` on it, and nobody
accesses a freed buffer,** in whatever order the clients and the task act. -/
theorem freed_once_after_both {queueCount : Nat} {s : State}
    (run : Reaches (step queueCount) (fun _ _ => True) State.init s) :
    (∀ p, s.trace.count (.freed p) ≤ 1) ∧
    (∀ p before after, s.trace = before ++ .freed p :: after →
      .deinit .client p ∈ before ∧ .deinit .server p ∈ before) ∧
    ∀ a p, step queueCount s a ≠ .error (.useAfterFree p) := by
  obtain ⟨safe, noFault⟩ := run.meets Safe.initial fun s a safe _ => safe_step safe a
  refine ⟨safe.ledger.once, ?_, ?_⟩
  · intro p before after split
    have both := safe.ledger.afterBoth p before after split
    exact ⟨both .client, both .server⟩
  · intro a p failed
    exact noFault a _ trivial failed ⟨p, rfl⟩

/-- One synchronous call that waits forever. -/
def syncCall : List Action :=
  [.init 0 1 7 aosWaitForever, .use 0 (.put [5] 0 true), .call 0 3, .send 0 false, .send 0 true,
    .recv 0, .handle 0 .get, .reply 0, .wait 0 false, .deinit 0, .finish 0]

theorem freed_once_after_both_syncCall :
    ∃ s, syncCall.foldlM (step 8) State.init = .ok s ∧
      s.trace = [.deinit .client ⟨1, 0⟩, .deinit .server ⟨1, 0⟩, .freed ⟨1, 0⟩] ∧
      (∀ p, s.trace.count (.freed p) ≤ 1) ∧
      (∀ p before after, s.trace = before ++ .freed p :: after →
        .deinit .client p ∈ before ∧ .deinit .server p ∈ before) ∧
      ∀ a p, step 8 s a ≠ .error (.useAfterFree p) := by
  refine ⟨_, rfl, rfl, ?_⟩
  have run : syncCall.foldlM (step 8) State.init = .ok _ := rfl
  exact freed_once_after_both (reaches_foldlM (fun _ _ _ => trivial) run)

/-- **No two parties have one buffer**, and no message is received twice. -/
theorem buffers_apart {queueCount : Nat} {s : State}
    (run : Reaches (step queueCount) (fun _ _ => True) State.init s) :
    Apart s.clientData s.unsentData s.jobData s.queued s.gcCache :=
  (run.meets Safe.initial fun _ a safe _ => safe_step safe a).1.apart

theorem buffers_apart_sent : ∃ s, (syncCall.take 5).foldlM (step 8) State.init = .ok s ∧
    s.queued = [⟨1, 0⟩] ∧ Apart s.clientData s.unsentData s.jobData s.queued s.gcCache :=
  ⟨_, rfl, rfl, buffers_apart (reaches_foldlM (fun _ _ _ => trivial)
    (show (syncCall.take 5).foldlM (step 8) _ = .ok _ from rfl))⟩

end Phy6212.UService
