import Mathlib.Algebra.Order.Group.Int
import Mathlib.Data.List.Count
import Mathlib.Data.List.Perm.Basic
import Phy6212.Lists.Dlist
import Phy6212.Runs.Simulation

/-!
# Delayed actions of the event loop

`aos_post_delayed_action` puts an entry into a list sorted by deadline, `aos_cancel_delayed_action`
takes the first that fits out, and `aos_loop_run` runs the first when it is due; a running action
may do all of this.
-/

namespace Phy6212.EventLoop

open Function List Dlist Runs

def einval : Int := 22

def enomem : Int := 12

/-- An entry is read or freed that is not allocated, or a loop over the entries does not end. -/
inductive Fault where
  | wild
  deriving DecidableEq, Repr

/-- `eventloop_timeout_t`. The number of the post is not a field of the code. -/
structure Timeout where
  timeoutMs : Int
  privateData : Nat
  cb : Nat
  ms : Int
  number : Nat
  deriving DecidableEq, Repr

structure Post where
  ms : Int
  action : Nat
  param : Nat
  deadline : Int
  deriving DecidableEq, Repr

structure Call where
  number : Nat
  action : Nat
  param : Nat
  clock : Int
  deriving DecidableEq, Repr

structure Cancellation where
  number : Nat
  ms : Int
  action : Nat
  param : Nat
  deriving DecidableEq, Repr

/-- The loop: the address and the links of its list, the allocated entries, the clock, the
entries whose actions are running (the latest first), and the record of what has happened. -/
structure Loop where
  timeouts : Nat
  links : Links Nat
  heap : Nat → Option Timeout
  clock : Int
  running : List Nat
  posted : List Post
  ran : List Call
  cancelled : List Cancellation

def aosLoopInit (timeouts : Nat) (links : Links Nat) (clock : Int) : Loop where
  timeouts := timeouts
  links := init links timeouts
  heap := fun _ => none
  clock := clock
  running := []
  posted := []
  ran := []
  cancelled := []

def Loop.fuel (s : Loop) : Nat := s.posted.length + 1

/-- `dlist_for_each_entry` over the timeouts, left at the first entry of a kind. -/
def Loop.forEachEntry (s : Loop) (stops : Timeout → Bool) : Option Nat :=
  seek s.links s.timeouts (fun a => (s.heap a).map stops) s.fuel (s.links s.timeouts).next

def Loop.timeout (s : Loop) (ms : Int) (action param : Nat) : Timeout where
  timeoutMs := s.clock + ms
  privateData := param
  cb := action
  ms := ms
  number := s.posted.length

def Loop.fill (s : Loop) (malloc : Nat) (timeout : Timeout) : Loop :=
  { s with
    heap := update s.heap malloc (some timeout)
    posted := s.posted ++ [⟨timeout.ms, timeout.cb, timeout.privateData, timeout.timeoutMs⟩] }

def Loop.Taken (s : Loop) (malloc : Nat) : Prop := malloc = s.timeouts ∨ (s.heap malloc).isSome

instance (s : Loop) (malloc : Nat) : Decidable (s.Taken malloc) :=
  inferInstanceAs (Decidable (_ ∨ _))

def aosPostDelayedAction (ms : Int) (action : Option Nat) (param : Nat) (malloc : Nat) (s : Loop) :
    Except Fault (Int × Loop) :=
  match action with
  | none => .ok (-einval, s)
  | some action =>
    if ms < 0 then .ok (-einval, s)
    else if s.Taken malloc then .ok (-enomem, s)
    else
      let timeout := s.timeout ms action param
      let s' := s.fill malloc timeout
      match s'.forEachEntry fun tmp => decide (timeout.timeoutMs < tmp.timeoutMs) with
      | none => .error .wild
      | some tmp => .ok (0, { s' with links := addTail s'.links malloc tmp })

def Timeout.fits (ms : Int) (action param : Nat) (tmp : Timeout) : Bool :=
  decide (¬ (ms ≥ 0 ∧ tmp.ms ≠ ms)) && decide (tmp.cb = action) && decide (tmp.privateData = param)

def Loop.remove (s : Loop) (tmp : Nat) (cancellation : Cancellation) : Loop :=
  { s with
    links := del s.links tmp
    heap := update s.heap tmp none
    cancelled := s.cancelled ++ [cancellation] }

def aosCancelDelayedAction (ms : Int) (action : Option Nat) (param : Nat) (s : Loop) :
    Except Fault Loop :=
  match action with
  | none => .ok s
  | some action =>
    match s.forEachEntry (Timeout.fits ms action param) with
    | none => .error .wild
    | some tmp =>
      if tmp = s.timeouts then .ok s
      else
        match s.heap tmp with
        | none => .error .wild
        | some timeout => .ok (s.remove tmp ⟨timeout.number, ms, action, param⟩)

/-- How long an iteration of `aos_loop_run` lets the readers be polled, in milliseconds; `-1` is
without a limit. -/
def delayedMs (s : Loop) : Except Fault Int :=
  let tmo := (s.links s.timeouts).next
  if tmo = s.timeouts then .ok (-1)
  else
    match s.heap tmo with
    | none => .error .wild
    | some timeout => .ok (if s.clock < timeout.timeoutMs then timeout.timeoutMs - s.clock else 0)

def Loop.call (s : Loop) (tmo : Nat) (timeout : Timeout) : Loop :=
  { s with
    links := del s.links tmo
    running := tmo :: s.running
    ran := s.ran ++ [⟨timeout.number, timeout.cb, timeout.privateData, s.clock⟩] }

/-- The part of an iteration of `aos_loop_run` behind the poll, up to the call of the action. -/
def aosLoopRun (s : Loop) : Except Fault Loop :=
  let tmo := (s.links s.timeouts).next
  if tmo = s.timeouts then .ok s
  else
    match s.heap tmo with
    | none => .error .wild
    | some timeout =>
      if timeout.timeoutMs ≤ s.clock then .ok (s.call tmo timeout) else .ok s

/-- The action called last returns to the loop, which frees its entry. -/
def actionReturns (s : Loop) : Except Fault Loop :=
  match s.running with
  | [] => .ok s
  | tmo :: running =>
    match s.heap tmo with
    | none => .error .wild
    | some _ => .ok { s with heap := update s.heap tmo none, running }

inductive Event where
  | elapse (ms : Nat)
  | post (ms : Int) (action : Option Nat) (param malloc : Nat)
  | cancel (ms : Int) (action : Option Nat) (param : Nat)
  | poll
  | iterate
  | actionReturns

def step (s : Loop) : Event → Except Fault (Option Int × Loop)
  | .elapse ms => .ok (none, { s with clock := s.clock + ms })
  | .post ms action param malloc =>
    (aosPostDelayedAction ms action param malloc s).map fun (ret, s') => (some ret, s')
  | .cancel ms action param => (aosCancelDelayedAction ms action param s).map fun s' => (none, s')
  | .poll => (delayedMs s).map fun ms => (some ms, s)
  | .iterate => (aosLoopRun s).map fun s' => (none, s')
  | .actionReturns => (EventLoop.actionReturns s).map fun s' => (none, s')

/-! ## What the list stands for -/

/-- The order of the list: by deadline, and by the time of the post when these are equal. -/
def Timeout.Before (a b : Timeout) : Prop :=
  a.timeoutMs < b.timeoutMs ∨ a.timeoutMs = b.timeoutMs ∧ a.number < b.number

def Timeout.post (t : Timeout) : Post := ⟨t.ms, t.cb, t.privateData, t.timeoutMs⟩

/-- The pending entries are in order, and each post is in one place. -/
structure Loop.Orderly (s : Loop) (pending : List (Nat × Timeout)) : Prop where
  listing : Listing s.links s.heap s.timeouts pending
  sorted : pending.Pairwise fun a b => a.2.Before b.2
  /-- Each is the entry of a post, with its deadline. -/
  entries : ∀ e ∈ pending, s.posted[e.2.number]? = some e.2.post
  /-- What was run is the action of a post, and its deadline had come. -/
  due : ∀ call ∈ s.ran, ∃ post, s.posted[call.number]? = some post ∧
    call.action = post.action ∧ call.param = post.param ∧ post.deadline ≤ call.clock
  /-- What was cancelled fits the arguments of the cancellation. -/
  fits : ∀ c ∈ s.cancelled, ∃ post, s.posted[c.number]? = some post ∧
    post.action = c.action ∧ post.param = c.param ∧ (c.ms < 0 ∨ post.ms = c.ms)
  /-- Each post is pending, run or cancelled, and only once. -/
  once : (pending.map (fun e => e.2.number) ++ (s.ran.map Call.number ++
    s.cancelled.map Cancellation.number)).Perm (range s.posted.length)

/-- Besides, the entries of running actions are allocated, each on its own, and off the list. -/
structure Loop.Consistent (s : Loop) (pending : List (Nat × Timeout)) : Prop
    extends Loop.Orderly s pending where
  running_nodup : s.running.Nodup
  running_off : ∀ a ∈ s.running, (s.heap a).isSome ∧ a ∉ pending.map Prod.fst

theorem Timeout.Before.trans {a b c : Timeout} (first : a.Before b) (second : b.Before c) :
    a.Before c := by
  unfold Timeout.Before at *
  omega

variable {s : Loop} {pending : List (Nat × Timeout)}

theorem Loop.Orderly.length_lt_fuel (orderly : s.Orderly pending) : pending.length < s.fuel := by
  have counted := orderly.once.length_eq
  simp only [length_append, length_map, length_range] at counted
  unfold Loop.fuel
  omega

theorem Loop.Orderly.number_lt (orderly : s.Orderly pending) {e : Nat × Timeout}
    (member : e ∈ pending) : e.2.number < s.posted.length := by
  have found := orderly.entries e member
  exact (List.getElem?_eq_some_iff.mp found).1

theorem posted_append {posted : List Post} {n : Nat} {post more : Post}
    (found : posted[n]? = some post) : (posted ++ [more])[n]? = some post := by
  rw [getElem?_append_left (List.getElem?_eq_some_iff.mp found).1]
  exact found

theorem consistent_insert (consistent : s.Consistent pending) (ms : Int) (action param : Nat)
    {malloc : Nat} (free : ¬ s.Taken malloc) :
    ∃ tmp pending',
      ((s.fill malloc (s.timeout ms action param)).forEachEntry fun tmp =>
        decide ((s.timeout ms action param).timeoutMs < tmp.timeoutMs)) = some tmp ∧
      { s.fill malloc (s.timeout ms action param) with
        links := addTail s.links malloc tmp : Loop }.Consistent pending' := by
  obtain ⟨not_head, unused⟩ := not_or.mp free
  have unused : s.heap malloc = none := by simpa using unused
  have number : (s.timeout ms action param).number = s.posted.length := rfl
  generalize s.timeout ms action param = timeout at *
  let stops : Timeout → Bool := fun tmp => decide (timeout.timeoutMs < tmp.timeoutMs)
  let passed := pending.takeWhile fun e => !stops e.2
  let behind := pending.dropWhile fun e => !stops e.2
  have parts : passed ++ behind = pending := takeWhile_append_dropWhile
  have off := consistent.listing.not_mem unused
  refine ⟨(behind.map Prod.fst).headD s.timeouts, passed ++ (malloc, timeout) :: behind, ?_, ?_⟩
  · exact (consistent.listing.update off _).seek stops
      (Nat.lt_succ_of_lt (by simpa [Loop.fuel, Loop.fill] using consistent.length_lt_fuel))
  have split := consistent
  rw [← parts] at split
  exact {
    listing := split.listing.addTail not_head unused
    sorted := by
      refine pairwise_insert (fun a b c first second => first.trans second)
        consistent.sorted ?_ ?_
      · intro e member earlier
        have older := consistent.number_lt member
        have not_later := of_decide_eq_false earlier
        show e.2.Before timeout
        unfold Timeout.Before
        omega
      · intro e member later
        exact .inl (of_decide_eq_true later)
    entries := by
      intro e member
      have inside : e = (malloc, timeout) ∨ e ∈ passed ++ behind := by
        simp only [mem_append, mem_cons] at member ⊢
        tauto
      rcases inside with rfl | inside
      · show (s.posted ++ [_])[timeout.number]? = _
        rw [number, getElem?_concat_length]
        rfl
      · exact posted_append (split.entries e inside)
    due := by
      intro call member
      obtain ⟨post, found, rest⟩ := consistent.due call member
      exact ⟨post, posted_append found, rest⟩
    fits := by
      intro c member
      obtain ⟨post, found, rest⟩ := consistent.fits c member
      exact ⟨post, posted_append found, rest⟩
    once := by
      have once := split.once
      show List.Perm _ (range (s.posted ++ [_]).length)
      rw [length_append, length_singleton, range_succ, ← number]
      rw [← number] at once
      refine (perm_map_insert _ passed behind (malloc, timeout) _).trans ?_
      exact (once.cons _).trans (perm_append_singleton _ _).symm
    running_nodup := consistent.running_nodup
    running_off := by
      intro a member
      obtain ⟨allocated, off_list⟩ := split.running_off a member
      have other : a ≠ malloc := by
        rintro rfl
        simp [unused] at allocated
      refine ⟨?_, ?_⟩
      · show (update s.heap malloc _ a).isSome
        rwa [update_of_ne other]
      · simp only [map_append, map_cons, mem_append, mem_cons] at off_list ⊢
        tauto }

theorem consistent_post (consistent : s.Consistent pending) (ms : Int) (action : Option Nat)
    (param malloc : Nat) :
    ∃ ret s' pending', aosPostDelayedAction ms action param malloc s = .ok (ret, s') ∧
      s'.Consistent pending' := by
  cases action with
  | none => exact ⟨_, s, pending, rfl, consistent⟩
  | some action =>
    unfold aosPostDelayedAction
    by_cases negative : ms < 0
    · exact ⟨_, s, pending, if_pos negative, consistent⟩
    by_cases taken : s.Taken malloc
    · refine ⟨-enomem, s, pending, ?_, consistent⟩
      simp only [if_neg negative, if_pos taken]
    obtain ⟨tmp, pending', found, next⟩ := consistent_insert consistent ms action param taken
    refine ⟨0, _, pending', ?_, next⟩
    simp only [if_neg negative, if_neg taken, found]
    rfl

variable {l₁ l₂ : List (Nat × Timeout)} {tmo : Nat} {timeout : Timeout}

theorem mem_of_mem_taken_out {e e' : Nat × Timeout} (member : e' ∈ l₁ ++ l₂) :
    e' ∈ l₁ ++ e :: l₂ := by
  simp only [mem_append, mem_cons] at member ⊢
  tauto

theorem consistent_remove (consistent : s.Consistent (l₁ ++ (tmo, timeout) :: l₂)) {ms : Int}
    {action param : Nat} (fits : timeout.fits ms action param) :
    (s.remove tmo ⟨timeout.number, ms, action, param⟩).Consistent (l₁ ++ l₂) := by
  have member : (tmo, timeout) ∈ l₁ ++ (tmo, timeout) :: l₂ := by simp
  obtain ⟨listing, off⟩ := consistent.listing.del
  exact {
    listing := listing.update off none
    sorted := consistent.sorted.sublist (List.Sublist.append_left (by simp) _)
    entries := fun e inside => consistent.entries e (mem_of_mem_taken_out inside)
    due := consistent.due
    fits := by
      intro c inside
      rcases mem_append.mp inside with before | now
      · exact consistent.fits c before
      rw [mem_singleton.mp now]
      refine ⟨timeout.post, consistent.entries _ member, ?_⟩
      simp only [Timeout.fits, Bool.and_eq_true, decide_eq_true_eq] at fits
      refine ⟨fits.1.2, fits.2, ?_⟩
      show ms < 0 ∨ timeout.ms = ms
      omega
    once := by
      refine List.Perm.trans ?_ consistent.once
      refine List.Perm.trans ?_ (perm_map_insert _ l₁ l₂ (tmo, timeout) _).symm
      show (_ ++ (_ ++ (s.cancelled ++ [_]).map Cancellation.number)).Perm _
      simp only [map_append, map_cons, map_nil, ← append_assoc]
      exact perm_append_singleton _ _
    running_nodup := consistent.running_nodup
    running_off := by
      intro a running
      obtain ⟨still, off_list⟩ := consistent.running_off a running
      have other : a ≠ tmo := by
        rintro rfl
        exact off_list (mem_map_of_mem member)
      refine ⟨?_, fun inside => off_list ?_⟩
      · show (update s.heap tmo none a).isSome
        rwa [update_of_ne other]
      · obtain ⟨e, e_in, rfl⟩ := mem_map.mp inside
        exact mem_map_of_mem (mem_of_mem_taken_out e_in) }

theorem consistent_call (consistent : s.Consistent ((tmo, timeout) :: l₂))
    (due : timeout.timeoutMs ≤ s.clock) : (s.call tmo timeout).Consistent l₂ := by
  have listed : Listing s.links s.heap s.timeouts ([] ++ (tmo, timeout) :: l₂) := consistent.listing
  obtain ⟨listing, off⟩ := listed.del
  exact {
    listing := listing
    sorted := (pairwise_cons.mp consistent.sorted).2
    entries := fun e member => consistent.entries e (mem_cons_of_mem _ member)
    due := by
      intro call member
      rcases mem_append.mp member with before | now
      · exact consistent.due call before
      · rw [mem_singleton.mp now]
        exact ⟨timeout.post, consistent.entries _ mem_cons_self, rfl, rfl, due⟩
    fits := consistent.fits
    once := by
      refine List.Perm.trans ?_ consistent.once
      show (_ ++ ((s.ran ++ [_]).map Call.number ++ _)).Perm _
      simp only [map_append, map_cons, map_nil, append_assoc, cons_append,
        nil_append]
      exact (perm_middle.append_left _).trans perm_middle
    running_nodup := by
      refine nodup_cons.mpr ⟨fun again => ?_, consistent.running_nodup⟩
      exact (consistent.running_off tmo again).2 mem_cons_self
    running_off := by
      intro a running
      rcases mem_cons.mp running with rfl | before
      · have allocated : s.heap a = some timeout := consistent.listing.stored _ mem_cons_self
        exact ⟨Option.isSome_iff_exists.mpr ⟨timeout, allocated⟩, off⟩
      · obtain ⟨still, off_list⟩ := consistent.running_off a before
        exact ⟨still, fun inside => off_list (mem_cons_of_mem _ inside)⟩ }

section

variable (consistent : s.Consistent pending)

include consistent

theorem consistent_cancel (ms : Int) (action : Option Nat) (param : Nat) :
    ∃ s' pending', aosCancelDelayedAction ms action param s = .ok s' ∧ s'.Consistent pending' := by
  cases action with
  | none => exact ⟨s, pending, rfl, consistent⟩
  | some action =>
    let passes : Nat × Timeout → Bool := fun e => !e.2.fits ms action param
    have found : s.forEachEntry _ =
        some (((pending.dropWhile passes).map Prod.fst).headD s.timeouts) :=
      consistent.listing.seek _ consistent.length_lt_fuel
    have parts : pending.takeWhile passes ++ pending.dropWhile passes = pending :=
      takeWhile_append_dropWhile
    cases behind : pending.dropWhile passes with
    | nil =>
      refine ⟨s, pending, ?_, consistent⟩
      simp [aosCancelDelayedAction, found, behind]
    | cons e rest =>
      obtain ⟨tmp, timeout⟩ := e
      have fits : timeout.fits ms action param = true := by
        have stopped := head_dropWhile_not passes (by rw [behind]; simp)
        simpa [behind, passes] using stopped
      rw [behind] at found parts
      rw [← parts] at consistent
      have member : (tmp, timeout) ∈ pending.takeWhile passes ++ (tmp, timeout) :: rest := by simp
      have allocated : s.heap tmp = some timeout := consistent.listing.stored _ member
      have not_head : tmp ≠ s.timeouts := consistent.listing.ne_head member
      refine ⟨_, _, ?_, consistent_remove consistent fits⟩
      simp [aosCancelDelayedAction, found, not_head, allocated]

theorem consistent_iterate : (∃ ms, delayedMs s = .ok ms) ∧
      ∃ s' pending', aosLoopRun s = .ok s' ∧ s'.Consistent pending' := by
  have first := consistent.listing.ring.next_head
  cases pending with
  | nil =>
    refine ⟨⟨-1, ?_⟩, s, [], ?_, consistent⟩
    · simp [delayedMs, first]
    · simp [aosLoopRun, first]
  | cons e rest =>
    obtain ⟨tmo, timeout⟩ := e
    have allocated : s.heap tmo = some timeout := consistent.listing.stored _ mem_cons_self
    have not_head : tmo ≠ s.timeouts := consistent.listing.ne_head mem_cons_self
    constructor
    · simp [delayedMs, first, not_head, allocated]
    by_cases due : timeout.timeoutMs ≤ s.clock
    · refine ⟨_, rest, ?_, consistent_call consistent due⟩
      simp [aosLoopRun, first, not_head, allocated, due]
    · refine ⟨s, _, ?_, consistent⟩
      simp [aosLoopRun, first, not_head, allocated, due]

theorem consistent_return : ∃ s', actionReturns s = .ok s' ∧ s'.Consistent pending := by
  unfold actionReturns
  cases running : s.running with
  | nil => exact ⟨s, rfl, consistent⟩
  | cons tmo rest =>
    have on_stack : ∀ a ∈ tmo :: rest, (s.heap a).isSome ∧ a ∉ pending.map Prod.fst := by
      intro a member
      exact consistent.running_off a (running ▸ member)
    obtain ⟨not_again, nodup⟩ := nodup_cons.mp (running ▸ consistent.running_nodup)
    obtain ⟨allocated, off⟩ := on_stack tmo mem_cons_self
    obtain ⟨timeout, at_tmo⟩ := Option.isSome_iff_exists.mp allocated
    simp only [at_tmo]
    refine ⟨_, rfl, ?_⟩
    exact { consistent with
      listing := consistent.listing.update off none
      running_nodup := nodup
      running_off := by
        intro a member
        have other : a ≠ tmo := by
          rintro rfl
          exact not_again member
        obtain ⟨still, off_list⟩ := on_stack a (mem_cons_of_mem _ member)
        refine ⟨?_, off_list⟩
        show (update s.heap tmo none a).isSome
        rwa [update_of_ne other] }

end

theorem consistent_step (s : Loop) (event : Event) (start : ∃ pending, s.Consistent pending) :
    ∃ ret s', step s event = .ok (ret, s') ∧ ∃ pending, s'.Consistent pending := by
  obtain ⟨pending, consistent⟩ := start
  cases event with
  | elapse ms => exact ⟨none, _, rfl, pending, { consistent with }⟩
  | post ms action param malloc =>
    obtain ⟨ret, s', pending', ok, next⟩ := consistent_post consistent ms action param malloc
    exact ⟨some ret, s', by simp [step, ok, Except.map], pending', next⟩
  | cancel ms action param =>
    obtain ⟨s', pending', ok, next⟩ := consistent_cancel consistent ms action param
    exact ⟨none, s', by simp [step, ok, Except.map], pending', next⟩
  | poll =>
    obtain ⟨⟨ms, ok⟩, -⟩ := consistent_iterate consistent
    exact ⟨some ms, s, by simp [step, ok, Except.map], pending, consistent⟩
  | iterate =>
    obtain ⟨-, s', pending', ok, next⟩ := consistent_iterate consistent
    exact ⟨none, s', by simp [step, ok, Except.map], pending', next⟩
  | actionReturns =>
    obtain ⟨s', ok, next⟩ := consistent_return consistent
    exact ⟨none, s', by simp [step, ok, Except.map], pending, next⟩

theorem consistent_init (timeouts : Nat) (links : Links Nat) (clock : Int) :
    (aosLoopInit timeouts links clock).Consistent [] where
  listing := listing_init links _ timeouts
  sorted := .nil
  entries := by simp
  due := by simp [aosLoopInit]
  fits := by simp [aosLoopInit]
  once := by simp [aosLoopInit]
  running_nodup := .nil
  running_off := by simp [aosLoopInit]

end Phy6212.EventLoop
