import Mathlib.Algebra.Group.Nat.Defs
import Mathlib.Algebra.Order.Group.Int
import Mathlib.Data.List.Perm.Basic
import Phy6212.Lists.Dlist
import Phy6212.Runs.Simulation

/-!
# Delayed events of the event service

`event_publish_delay` sends a request to the task, which puts a timer into a sorted list
(`process_rpc`); `do_time_event` publishes those that are due.
-/

namespace Phy6212.EventSvr

open List Dlist Runs

/-- A timer is read that is not allocated, or a loop over the timers does not end. -/
inductive Fault where
  | wild
  deriving DecidableEq, Repr

structure Delayed where
  eventId : UInt32
  data : Nat
  timeout : Int32
  clock : Nat
  deriving DecidableEq

def Delayed.deadline (call : Delayed) : Int := call.clock + call.timeout.toInt

/-- `struct event_param` of a request, with the number of the call. -/
structure Request where
  eventId : UInt32
  timeout : UInt32
  data : Nat
  number : Nat
  deriving DecidableEq

/-- `struct event_param` of a timer, with the number of the call and the clock when the timer
was set. -/
structure Timer where
  eventId : UInt32
  timeout : UInt32
  data : Nat
  number : Nat
  set : Nat
  deriving DecidableEq

structure Publication where
  number : Nat
  eventId : UInt32
  data : Nat
  clock : Nat
  deriving DecidableEq, Repr

/-- `ev_service`: the list of timers, the allocated timers, the clock, the requests that wait for
the task, and the record of calls and publications. -/
structure Service where
  timeouts : Nat
  links : Links Nat
  heap : Nat → Option Timer
  clock : Nat
  queue : List Request
  called : List Delayed
  published : List Publication

def eventServiceInit (timeouts : Nat) (links : Links Nat) (clock : Nat) : Service where
  timeouts := timeouts
  links := init links timeouts
  heap := fun _ => none
  clock := clock
  queue := []
  called := []
  published := []

def Service.elapse (s : Service) (ms : Nat) : Service := { s with clock := s.clock + ms }

def eventPublishDelay (eventId : UInt32) (data : Nat) (timeout : Int32) (accepted : Bool)
    (s : Service) : Service :=
  let param : Request := ⟨eventId, timeout.toUInt32, data, s.called.length⟩
  { s with
    called := s.called ++ [⟨eventId, data, timeout, s.clock⟩]
    queue := if accepted then s.queue ++ [param] else s.queue }

def Service.Taken (s : Service) (malloc : Nat) : Prop :=
  malloc = s.timeouts ∨ (s.heap malloc).isSome

instance (s : Service) (malloc : Nat) : Decidable (s.Taken malloc) :=
  inferInstanceAs (Decidable (_ ∨ _))

def Service.timer (s : Service) (param : Request) : Timer where
  eventId := param.eventId
  timeout := UInt32.ofNat (s.clock + param.timeout.toNat)
  data := param.data
  number := param.number
  set := s.clock

def Service.addTimer (s : Service) (malloc : Nat) (timer : Timer) : Except Fault Service :=
  let heap := Function.update s.heap malloc (some timer)
  let later : Nat → Option Bool := fun a =>
    (heap a).map fun node => decide (timer.timeout < node.timeout)
  match seek s.links s.timeouts later (s.called.length + 1) (s.links s.timeouts).next with
  | none => .error .wild
  | some node => .ok { s with heap, links := addTail s.links malloc node }

def processRpc (malloc : Nat) (s : Service) : Except Fault Service :=
  match s.queue with
  | [] => .ok s
  | param :: queue =>
    if param.timeout > 0 then
      if s.Taken malloc then .ok { s with queue }
      else { s with queue }.addTimer malloc (s.timer param)
    else
      .ok { s with
        queue
        published := s.published ++ [⟨param.number, param.eventId, param.data, s.clock⟩] }

def Service.publish (s : Service) (node : Nat) (timer : Timer) : Service :=
  { s with
    published := s.published ++ [⟨timer.number, timer.eventId, timer.data, s.clock⟩]
    links := del s.links node
    heap := Function.update s.heap node none }

def doTimeLoop : Nat → Nat → List Nat → Service → Except Fault (Int × Service)
  | 0, _, _, _ => .error .wild
  | fuel + 1, node, lags, s =>
    if node = s.timeouts then .ok (-1, s)
    else
      match s.heap node with
      | none => .error .wild
      | some timer =>
        let tmp := (s.links node).next
        let s := s.elapse (lags.headD 0)
        if timer.timeout.toNat ≤ s.clock then
          doTimeLoop fuel tmp lags.tail (s.publish node timer)
        else .ok (Int.bmod (timer.timeout.toNat - s.clock) (2 ^ 32), s)

/-- `do_time_event`: how long to wait for the next timer, `-1` when there is none. -/
def doTimeEvent (lags : List Nat) (s : Service) : Except Fault (Int × Service) :=
  doTimeLoop (s.called.length + 1) (s.links s.timeouts).next lags s

inductive Event where
  | elapse (ms : Nat)
  | publishDelay (eventId : UInt32) (data : Nat) (timeout : Int32) (accepted : Bool)
  | processRpc (malloc : Nat)
  | doTimeEvent (lags : List Nat)

def step (s : Service) : Event → Except Fault (Int × Service)
  | .elapse ms => .ok (0, s.elapse ms)
  | .publishDelay eventId data timeout accepted =>
    .ok (0, eventPublishDelay eventId data timeout accepted s)
  | .processRpc malloc => (EventSvr.processRpc malloc s).map fun s' => (0, s')
  | .doTimeEvent lags => EventSvr.doTimeEvent lags s

/-! ## What the list stands for -/

/-- The request is sent, and the timer is set within the range of its field: the time plus the
delay is a number of 32 bits. -/
def Kept (s : Service) : Event → Prop
  | .publishDelay _ _ _ accepted => accepted = true
  | .processRpc malloc =>
    ∀ param ∈ s.queue.head?, param.timeout ≠ 0 → ¬ s.Taken malloc ∧
      ∀ call ∈ s.called[param.number]?,
        0 ≤ s.clock + call.timeout.toInt ∧ s.clock + call.timeout.toInt < 2 ^ 32
  | _ => True

/-- The pending timers are in order, and each call is in one place. -/
structure Service.Orderly (s : Service) (pending : List (Nat × Timer)) : Prop where
  listing : Listing s.links s.heap s.timeouts pending
  sorted : pending.Pairwise fun a b => a.2.timeout ≤ b.2.timeout
  /-- Each request that waits is the one of its call. -/
  requests : ∀ param ∈ s.queue, ∃ call, s.called[param.number]? = some call ∧
    param.eventId = call.eventId ∧ param.data = call.data ∧
    param.timeout = call.timeout.toUInt32 ∧ call.clock ≤ s.clock
  /-- Each timer holds the event of its call and, as its deadline, the time at which it was set
  plus the delay. -/
  timers : ∀ e ∈ pending, ∃ call, s.called[e.2.number]? = some call ∧
    e.2.eventId = call.eventId ∧ e.2.data = call.data ∧
    (e.2.timeout.toNat : Int) = e.2.set + call.timeout.toInt ∧ call.clock ≤ e.2.set
  /-- What was published is the event of a call, and its deadline had come. -/
  reached : ∀ p ∈ s.published, ∃ call, s.called[p.number]? = some call ∧
    p.eventId = call.eventId ∧ p.data = call.data ∧ call.deadline ≤ p.clock
  /-- Each call waits, is pending or is published, and only once. -/
  once : (s.queue.map Request.number ++ (pending.map (fun e => e.2.number) ++
    s.published.map Publication.number)).Perm (range s.called.length)

/-- The timers that were set at the clock reading of their calls are in the order of call time
plus delay. -/
def Service.SortedByDeadline (s : Service) (pending : List (Nat × Timer)) : Prop :=
  pending.Pairwise fun a b =>
    ∀ first ∈ s.called[a.2.number]?, ∀ second ∈ s.called[b.2.number]?,
      first.clock = a.2.set → second.clock = b.2.set → first.deadline ≤ second.deadline

theorem timeout_toNat {clock : Nat} {timeout : Int32}
    (low : 0 ≤ clock + timeout.toInt) (high : clock + timeout.toInt < 2 ^ 32) :
    ((UInt32.ofNat (clock + timeout.toUInt32.toNat)).toNat : Int) = clock + timeout.toInt := by
  have signed : timeout.toInt = if 2 * timeout.toUInt32.toNat < 2 ^ 32
      then (timeout.toUInt32.toNat : Int) else timeout.toUInt32.toNat - (2 ^ 32) :=
    BitVec.toInt_eq_toNat_cond timeout.toBitVec
  rw [UInt32.toNat_ofNat']
  split at signed <;> omega

theorem toInt_of_toUInt32_zero {timeout : Int32} (zero : timeout.toUInt32 = 0) :
    timeout.toInt = 0 := by
  show timeout.toUInt32.toBitVec.toInt = 0
  rw [zero]
  rfl

variable {s : Service} {pending : List (Nat × Timer)}

theorem Service.Orderly.length_le (orderly : s.Orderly pending) :
    pending.length ≤ s.called.length := by
  have counted := orderly.once.length_eq
  simp only [length_append, length_map, length_range] at counted
  omega

theorem Service.Orderly.elapse (orderly : s.Orderly pending) (ms : Nat) :
    (s.elapse ms).Orderly pending :=
  { orderly with
    requests := by
      intro param member
      obtain ⟨call, found, event, data, delay, before⟩ := orderly.requests param member
      exact ⟨call, found, event, data, delay, Nat.le_add_right_of_le before⟩ }

theorem called_append {called : List Delayed} {n : Nat} {call more : Delayed}
    (found : called[n]? = some call) : (called ++ [more])[n]? = some call := by
  rw [getElem?_append_left (List.getElem?_eq_some_iff.mp found).1]
  exact found

theorem orderly_publishDelay (orderly : s.Orderly pending) (eventId : UInt32) (data : Nat)
    (timeout : Int32) : (eventPublishDelay eventId data timeout true s).Orderly pending where
  listing := orderly.listing
  sorted := orderly.sorted
  requests := by
    intro param member
    rcases mem_append.mp member with before | now
    · obtain ⟨call, found, rest⟩ := orderly.requests param before
      exact ⟨call, called_append found, rest⟩
    · rw [mem_singleton.mp now]
      exact ⟨_, getElem?_concat_length, rfl, rfl, rfl, Nat.le_refl _⟩
  timers := by
    intro e member
    obtain ⟨call, found, rest⟩ := orderly.timers e member
    exact ⟨call, called_append found, rest⟩
  reached := by
    intro p member
    obtain ⟨call, found, rest⟩ := orderly.reached p member
    exact ⟨call, called_append found, rest⟩
  once := by
    show ((s.queue ++ [_]).map Request.number ++ _).Perm (range (s.called ++ [_]).length)
    rw [map_append, append_assoc, length_append, length_singleton,
      range_succ]
    refine perm_middle.trans ?_
    exact (orderly.once.cons _).trans (perm_append_singleton _ _).symm

theorem orderly_addTimer {queue : List Request} {timer : Timer} {call : Delayed} {malloc : Nat}
    (orderly : s.Orderly pending) (waiting : ∀ param ∈ queue, param ∈ s.queue)
    (once : (timer.number :: (queue.map Request.number ++ (pending.map (fun e => e.2.number) ++
      s.published.map Publication.number))).Perm (range s.called.length))
    (found : s.called[timer.number]? = some call)
    (holds : timer.eventId = call.eventId ∧ timer.data = call.data ∧
      (timer.timeout.toNat : Int) = timer.set + call.timeout.toInt ∧ call.clock ≤ timer.set)
    (free : ¬ s.Taken malloc) :
    ∃ s' pending', { s with queue }.addTimer malloc timer = .ok s' ∧ s'.Orderly pending' := by
  obtain ⟨not_head, unused⟩ := not_or.mp free
  have unused : s.heap malloc = none := by simpa using unused
  let stops : Timer → Bool := fun node => decide (timer.timeout < node.timeout)
  let passed := pending.takeWhile fun e => !stops e.2
  let behind := pending.dropWhile fun e => !stops e.2
  have parts : passed ++ behind = pending := takeWhile_append_dropWhile
  have cursor : seek s.links s.timeouts (fun a => (Function.update s.heap malloc _ a).map
      fun node => decide _) _
      (s.links s.timeouts).next = some _ :=
    (orderly.listing.update (orderly.listing.not_mem unused) (some timer)).seek stops
      (Nat.lt_succ_of_le orderly.length_le)
  have split := orderly
  rw [← parts] at split
  refine ⟨_, passed ++ (malloc, timer) :: behind, by simp only [Service.addTimer, cursor]; rfl, ?_⟩
  exact {
    listing := split.listing.addTail not_head unused
    sorted := by
      refine pairwise_insert (fun (a b c : Nat × Timer) (first : a.2.timeout ≤ b.2.timeout) second =>
        UInt32.le_trans first second) orderly.sorted ?_ ?_
      · intro e member earlier
        exact UInt32.not_lt.mp (of_decide_eq_false earlier)
      · intro e member later
        exact UInt32.le_of_lt (of_decide_eq_true later)
    requests := fun param member => orderly.requests param (waiting param member)
    timers := by
      intro e member
      have inside : e = (malloc, timer) ∨ e ∈ passed ++ behind := by
        simp only [mem_append, mem_cons] at member ⊢
        tauto
      rcases inside with rfl | inside
      · exact ⟨call, found, holds⟩
      · exact split.timers e inside
    reached := orderly.reached
    once := by
      refine List.Perm.trans ?_ once
      refine (List.Perm.append_left _ (perm_map_insert _ passed behind (malloc, timer) _)).trans ?_
      rw [parts]
      exact perm_middle }

theorem orderly_processRpc (orderly : s.Orderly pending) {malloc : Nat}
    (kept : Kept s (.processRpc malloc)) :
    ∃ s' pending', processRpc malloc s = .ok s' ∧ s'.Orderly pending' := by
  unfold processRpc
  cases waiting : s.queue with
  | nil => exact ⟨s, pending, rfl, orderly⟩
  | cons param queue =>
    obtain ⟨call, found, event, data, delay, before⟩ :=
      orderly.requests param (waiting ▸ mem_cons_self)
    have rest : ∀ param ∈ queue, ∃ call, s.called[param.number]? = some call ∧
        param.eventId = call.eventId ∧ param.data = call.data ∧
        param.timeout = call.timeout.toUInt32 ∧ call.clock ≤ s.clock := by
      intro other member
      exact orderly.requests other (waiting ▸ mem_cons_of_mem _ member)
    have once := orderly.once
    rw [waiting, map_cons, cons_append] at once
    by_cases delayed : param.timeout > 0
    · obtain ⟨free, range⟩ := kept param (by simp [waiting]) (UInt32.pos_iff_ne_zero.mp delayed)
      obtain ⟨low, high⟩ := range call found
      have deadline : ((s.timer param).timeout.toNat) = s.clock + call.timeout.toInt := by
        show ((UInt32.ofNat _).toNat : Int) = _
        rw [delay]
        exact timeout_toNat low high
      have recorded : s.called[(s.timer param).number]? = some call := found
      obtain ⟨s', pending', ok, next⟩ := orderly_addTimer orderly
        (fun other member => waiting ▸ mem_cons_of_mem _ member) once recorded
        ⟨event, data, deadline, before⟩ free
      refine ⟨s', pending', ?_, next⟩
      simp only [if_pos delayed, if_neg free]
      exact ok
    · have zero : call.timeout.toUInt32 = 0 := by
        rw [← delay]
        exact UInt32.le_zero_iff.mp (UInt32.not_lt.mp delayed)
      refine ⟨_, pending, if_neg delayed, ?_⟩
      exact {
        listing := orderly.listing
        sorted := orderly.sorted
        requests := rest
        timers := orderly.timers
        reached := by
          intro p member
          rcases mem_append.mp member with earlier | now
          · exact orderly.reached p earlier
          rw [mem_singleton.mp now]
          refine ⟨call, found, event, data, ?_⟩
          show call.clock + call.timeout.toInt ≤ s.clock
          rw [toInt_of_toUInt32_zero zero]
          omega
        once := by
          refine List.Perm.trans ?_ once
          rw [map_append, ← append_assoc, ← append_assoc]
          exact (perm_append_singleton _ _).trans (by rw [append_assoc]) }

theorem orderly_publish {node : Nat} {timer : Timer} {rest : List (Nat × Timer)}
    (orderly : s.Orderly ((node, timer) :: rest)) (due : timer.timeout.toNat ≤ s.clock) :
    (s.publish node timer).Orderly rest := by
  have listed : Listing s.links s.heap s.timeouts ([] ++ (node, timer) :: rest) := orderly.listing
  obtain ⟨listing, off⟩ := listed.del
  exact {
    listing := listing.update off none
    sorted := (pairwise_cons.mp orderly.sorted).2
    requests := orderly.requests
    timers := fun e member => orderly.timers e (mem_cons_of_mem _ member)
    reached := by
      intro p member
      rcases mem_append.mp member with earlier | now
      · exact orderly.reached p earlier
      rw [mem_singleton.mp now]
      obtain ⟨call, found, event, data, deadline, before⟩ := orderly.timers _ mem_cons_self
      refine ⟨call, found, event, data, ?_⟩
      show call.clock + call.timeout.toInt ≤ s.clock
      simp only at deadline before
      omega
    once := by
      refine List.Perm.trans ?_ orderly.once
      refine List.Perm.append_left _ ?_
      show (_ ++ (s.published ++ [_]).map Publication.number).Perm _
      rw [map_append, ← append_assoc]
      exact perm_append_singleton _ _ }

theorem orderly_doTimeLoop (lags : List Nat) {fuel : Nat} (orderly : s.Orderly pending)
    (enough : pending.length < fuel) :
    ∃ ret s' pending', doTimeLoop fuel ((pending.map Prod.fst).headD s.timeouts) lags s = .ok (ret, s') ∧
      s'.Orderly pending' ∧ ∀ e ∈ pending', s'.clock < e.2.timeout.toNat := by
  induction pending generalizing s lags fuel with
  | nil =>
    obtain ⟨fuel, rfl⟩ := Nat.exists_eq_succ_of_ne_zero (Nat.ne_of_gt enough)
    exact ⟨-1, s, [], if_pos rfl, orderly, by simp⟩
  | cons e rest ih =>
    obtain ⟨node, timer⟩ := e
    obtain ⟨fuel, rfl⟩ := Nat.exists_eq_succ_of_ne_zero (Nat.ne_of_gt (Nat.zero_lt_of_lt enough))
    have allocated : s.heap node = some timer := orderly.listing.stored _ mem_cons_self
    have not_head : node ≠ s.timeouts := orderly.listing.ne_head mem_cons_self
    have ring : Ring s.links s.timeouts ([] ++ node :: rest.map Prod.fst) := orderly.listing.ring
    have behind : (s.links node).next = (rest.map Prod.fst).headD s.timeouts := ring.next
    have later := orderly.elapse (lags.headD 0)
    rw [map_cons, headD_cons, doTimeLoop, if_neg not_head, allocated]
    by_cases due : timer.timeout.toNat ≤ (s.elapse (lags.headD 0)).clock
    · simp only [if_pos due, behind]
      exact ih lags.tail (orderly_publish later due) (Nat.lt_of_succ_lt_succ enough)
    refine ⟨_, _, (node, timer) :: rest, if_neg due, later, ?_⟩
    -- the list is sorted: what comes behind is not due either
    intro e member
    rcases mem_cons.mp member with rfl | inside
    · exact Nat.lt_of_not_le due
    · have order := (pairwise_cons.mp orderly.sorted).1 e inside
      exact Nat.lt_of_lt_of_le (Nat.lt_of_not_le due) (UInt32.le_iff_toNat_le.mp order)

theorem orderly_doTimeEvent (orderly : s.Orderly pending) (lags : List Nat) :
    ∃ ret s' pending', doTimeEvent lags s = .ok (ret, s') ∧ s'.Orderly pending' ∧
      ∀ e ∈ pending', s'.clock < e.2.timeout.toNat := by
  rw [doTimeEvent, orderly.listing.ring.next_head]
  exact orderly_doTimeLoop lags orderly (Nat.lt_succ_of_le orderly.length_le)

theorem orderly_step (s : Service) (event : Event) (start : ∃ pending, s.Orderly pending)
    (kept : Kept s event) :
    ∃ ret s', step s event = .ok (ret, s') ∧ ∃ pending, s'.Orderly pending := by
  obtain ⟨pending, orderly⟩ := start
  cases event with
  | elapse ms => exact ⟨0, _, rfl, pending, orderly.elapse ms⟩
  | publishDelay eventId data timeout accepted =>
    obtain rfl : accepted = true := kept
    exact ⟨0, _, rfl, pending, orderly_publishDelay orderly eventId data timeout⟩
  | processRpc malloc =>
    obtain ⟨s', pending', ok, next⟩ := orderly_processRpc orderly kept
    exact ⟨0, s', by simp [step, ok, Except.map], pending', next⟩
  | doTimeEvent lags =>
    obtain ⟨ret, s', pending', ok, next, -⟩ := orderly_doTimeEvent orderly lags
    exact ⟨ret, s', ok, pending', next⟩

theorem Service.Orderly.sortedByDeadline (orderly : s.Orderly pending) :
    s.SortedByDeadline pending := by
  refine orderly.sorted.imp_of_mem ?_
  intro a b a_in b_in order first first_in second second_in prompt prompt'
  obtain ⟨call, found, -, -, deadline, -⟩ := orderly.timers a a_in
  obtain ⟨call', found', -, -, deadline', -⟩ := orderly.timers b b_in
  obtain rfl : call = first := Option.some.inj (found.symm.trans first_in)
  obtain rfl : call' = second := Option.some.inj (found'.symm.trans second_in)
  have order := UInt32.le_iff_toNat_le.mp order
  unfold Delayed.deadline
  omega

theorem orderly_init (timeouts : Nat) (links : Links Nat) (clock : Nat) :
    (eventServiceInit timeouts links clock).Orderly [] where
  listing := listing_init links _ timeouts
  sorted := .nil
  requests := by simp [eventServiceInit]
  timers := by simp
  reached := by simp [eventServiceInit]
  once := by simp [eventServiceInit]

end Phy6212.EventSvr
