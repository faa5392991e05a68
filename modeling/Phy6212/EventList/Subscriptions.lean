import Mathlib.Data.List.Basic
import Mathlib.Data.Nat.Bitwise
import Phy6212.Runs.Simulation

/-!
# Event lists

A node for each event or descriptor that someone has subscribed to; the identifier of a descriptor
has the top bit set.
-/

namespace Phy6212.EventList

open List Runs

def fdMask : UInt32 := 0x80000000

/-- `event_subscription_t`. -/
structure Subscription where
  ecb : Nat
  context : Nat
  deriving DecidableEq, Repr

structure EventNode where
  eventId : UInt32
  subList : List Subscription
  deriving DecidableEq, Repr

structure Callback where
  ecb : Nat
  eventId : UInt32
  data : Nat
  context : Nat
  deriving DecidableEq, Repr

/-! ## The functions -/

def findEvent (evlist : List EventNode) (eventId : UInt32) : Option EventNode :=
  evlist.find? fun node => node.eventId = eventId

def updateEvent (eventId : UInt32) (subList : List Subscription) : List EventNode → List EventNode
  | [] => []
  | node :: rest =>
    if node.eventId = eventId then { node with subList } :: rest
    else node :: updateEvent eventId subList rest

def deleteEvent (eventId : UInt32) (evlist : List EventNode) : List EventNode :=
  evlist.eraseP fun node => node.eventId = eventId

def yocEventSubscribe (evlist : List EventNode) (eventId : UInt32) (sub : Subscription)
    (eventAlloc subAlloc : Bool) : Int × List EventNode :=
  match findEvent evlist eventId with
  | none =>
    if eventAlloc = false then (-1, evlist)
    else if subAlloc = false then (-1, ⟨eventId, []⟩ :: evlist)
    else (0, ⟨eventId, [sub]⟩ :: evlist)
  | some ev =>
    if sub ∈ ev.subList ∨ subAlloc = false then (-1, evlist)
    else (0, updateEvent eventId (sub :: ev.subList) evlist)

def yocEventUnsubscribe (evlist : List EventNode) (eventId : UInt32) (sub : Subscription) :
    Int × List EventNode :=
  match findEvent evlist eventId with
  | none => (-1, evlist)
  | some ev =>
    if sub ∈ ev.subList then
      let subList := ev.subList.erase sub
      (0, if subList = [] then deleteEvent eventId evlist else updateEvent eventId subList evlist)
    else (-1, evlist)

def yocEventRemove (evlist : List EventNode) (eventId : UInt32) : List EventNode :=
  match findEvent evlist eventId with
  | none => evlist
  | some _ => deleteEvent eventId evlist

def eventPublish (evlist : List EventNode) (eventId : UInt32) (data : Nat) : List Callback :=
  match findEvent evlist eventId with
  | none => []
  | some ev => ev.subList.map fun node => ⟨node.ecb, ev.eventId, data, node.context⟩

/-- What is subscribed to: an event or a file descriptor. -/
inductive Key where
  | event (eventId : UInt32)
  | fd (fd : UInt32)
  deriving DecidableEq, Repr

def Key.number : Key → UInt32
  | .event number => number
  | .fd number => number

def Key.eventId : Key → UInt32
  | .event number => number
  | .fd number => number ||| fdMask

def Key.Refused (key : Key) : Prop := key.number &&& fdMask ≠ 0

instance (key : Key) : Decidable key.Refused := inferInstanceAs (Decidable (_ ≠ _))

def eventlistSubscribe (evlist : List EventNode) (key : Key) (sub : Subscription)
    (eventAlloc subAlloc : Bool) : Int × List EventNode :=
  if key.Refused then (-1, evlist) else yocEventSubscribe evlist key.eventId sub eventAlloc subAlloc

def eventlistUnsubscribe (evlist : List EventNode) (key : Key) (sub : Subscription) :
    Int × List EventNode :=
  if key.Refused then (-1, evlist) else yocEventUnsubscribe evlist key.eventId sub

def eventlistRemove (evlist : List EventNode) (key : Key) : Int × List EventNode :=
  if key.Refused then (-1, evlist) else (0, yocEventRemove evlist key.eventId)

def eventlistPublish (evlist : List EventNode) (key : Key) (data : Nat) : List Callback :=
  if key.Refused then [] else eventPublish evlist key.eventId data

/-- `LWIP_SOCKET_OFFSET` and `MEMP_NUM_NETCONN`: the range of the sockets. -/
structure Sockets where
  offset : Nat
  num : Nat
  deriving DecidableEq, Repr

def Sockets.Has (sockets : Sockets) (fd : UInt32) : Prop :=
  sockets.offset ≤ fd.toNat ∧ fd.toNat - sockets.offset < sockets.num

instance (sockets : Sockets) (fd : UInt32) : Decidable (sockets.Has fd) :=
  inferInstanceAs (Decidable (_ ∧ _))

def FdSet : Type := Nat → Bool

def FdSet.zero : FdSet := fun _ => false

def FdSet.set (sockets : Sockets) (readfds : FdSet) (fd : UInt32) : FdSet := fun bit =>
  if sockets.Has fd ∧ bit = fd.toNat - sockets.offset then true else readfds bit

def FdSet.isSet (sockets : Sockets) (readfds : FdSet) (fd : UInt32) : Bool :=
  if sockets.Has fd then readfds (fd.toNat - sockets.offset) else false

def setfdNode (sockets : Sockets) (state : FdSet × UInt32) (node : EventNode) : FdSet × UInt32 :=
  if fdMask < node.eventId then
    let fd := node.eventId &&& ~~~fdMask
    (state.1.set sockets fd, if state.2 < fd then fd else state.2)
  else state

def eventlistSetfd (sockets : Sockets) (evlist : List EventNode) : FdSet × UInt32 :=
  evlist.foldl (setfdNode sockets) (FdSet.zero, 0)

inductive Call where
  | subscribe (key : Key) (sub : Subscription) (eventAlloc subAlloc : Bool)
  | unsubscribe (key : Key) (sub : Subscription)
  | remove (key : Key)

def perform (evlist : List EventNode) : Call → Except Empty (Int × List EventNode)
  | .subscribe key sub eventAlloc subAlloc =>
    .ok (eventlistSubscribe evlist key sub eventAlloc subAlloc)
  | .unsubscribe key sub => .ok (eventlistUnsubscribe evlist key sub)
  | .remove key => .ok (eventlistRemove evlist key)

/-! ## What the list stands for -/

abbrev Relation := Key → Subscription → Prop

def follow (subscribed : Relation) (call : Call) (ret : Int) : Relation :=
  match call with
  | .subscribe key sub _ _ => fun k s => subscribed k s ∨ (ret = 0 ∧ k = key ∧ s = sub)
  | .unsubscribe key sub => fun k s => subscribed k s ∧ ¬ (k = key ∧ s = sub)
  | .remove key => fun k s => subscribed k s ∧ k ≠ key

/-- Publishing calls each related pair once, and no other. -/
def Publishes (evlist : List EventNode) (subscribed : Relation) : Prop :=
  ∀ key data, ∃ pairs : List Subscription, pairs.Nodup ∧ (∀ s, s ∈ pairs ↔ subscribed key s) ∧
    eventlistPublish evlist key data = pairs.map fun s => ⟨s.ecb, key.eventId, data, s.context⟩

/-- The descriptors with a subscriber are set, and the largest one is returned. -/
structure SetsDescriptors (sockets : Sockets) (evlist : List EventNode) (subscribed : Relation) :
    Prop where
  set : ∀ fd, (eventlistSetfd sockets evlist).1.isSet sockets fd = true ↔ ∃ s, subscribed (.fd fd) s
  bound : ∀ fd s, subscribed (.fd fd) s → fd ≤ (eventlistSetfd sockets evlist).2
  largest : (∃ fd s, subscribed (.fd fd) s) →
    ∃ s, subscribed (.fd (eventlistSetfd sockets evlist).2) s

/-- Descriptors are those of sockets and not 0, and a node that is made for one also gets its
subscription. -/
def Kept (sockets : Sockets) (evlist : List EventNode) : Call → Prop
  | .subscribe (.fd fd) _ eventAlloc subAlloc =>
    fd ≠ 0 ∧ sockets.Has fd ∧
      (findEvent evlist (Key.fd fd).eventId = none → eventAlloc = true → subAlloc = true)
  | _ => True

/-! ## Identifiers -/

theorem unmasked_iff (id : UInt32) : id &&& fdMask = 0 ↔ id.toNat < 2 ^ 31 := by
  have bits : (id &&& fdMask).toNat = (id.toNat.testBit 31).toNat * 2 ^ 31 := by
    exact Nat.and_two_pow id.toNat 31
  have range := id.toNat_lt
  rw [← UInt32.toNat_inj, bits, Nat.testBit_eq_decide_div_mod_eq]
  by_cases top : id.toNat / 2 ^ 31 % 2 = 1
  · simp; omega
  · simp; omega

variable {evlist : List EventNode} {eventId : UInt32} {key : Key} {subscribed : Relation}
  {sockets : Sockets}

theorem Key.not_refused_iff : ¬ key.Refused ↔ key.number.toNat < 2 ^ 31 := by
  rw [Key.Refused, not_not, unmasked_iff]

theorem toNat_mask {fd : UInt32} (small : fd.toNat < 2 ^ 31) :
    (fd ||| fdMask).toNat = 2 ^ 31 + fd.toNat := by
  have bits := Nat.two_pow_add_eq_or_of_lt small 1
  rw [UInt32.toNat_or, Nat.lor_comm]
  exact bits.symm

theorem toNat_unmask (id : UInt32) : (id &&& ~~~fdMask).toNat = id.toNat % 2 ^ 31 := by
  exact Nat.and_two_pow_sub_one_eq_mod id.toNat 31

theorem Key.eventId_inj {key' : Key} (valid : ¬ key.Refused) (valid' : ¬ key'.Refused)
    (same : key.eventId = key'.eventId) : key = key' := by
  rw [Key.not_refused_iff] at valid valid'
  rw [← UInt32.toNat_inj] at same
  cases key with
  | event number =>
    cases key' with
    | event number' => exact congrArg Key.event (UInt32.toNat_inj.mp same)
    | fd number' =>
      simp only [Key.eventId, Key.number] at valid valid' same
      rw [toNat_mask valid'] at same
      omega
  | fd number =>
    cases key' with
    | event number' =>
      simp only [Key.eventId, Key.number] at valid valid' same
      rw [toNat_mask valid] at same
      omega
    | fd number' =>
      simp only [Key.eventId, Key.number] at valid valid' same
      rw [toNat_mask valid, toNat_mask valid'] at same
      exact congrArg Key.fd (UInt32.toNat_inj.mp (by omega))

/-! ## Nodes -/

def ids (evlist : List EventNode) : List UInt32 := evlist.map EventNode.eventId

def subs (evlist : List EventNode) (eventId : UInt32) : List Subscription :=
  ((findEvent evlist eventId).map EventNode.subList).getD []

theorem findEvent_cons (node : EventNode) (rest : List EventNode) (eventId : UInt32) :
    findEvent (node :: rest) eventId =
      if node.eventId = eventId then some node else findEvent rest eventId := by
  by_cases here : node.eventId = eventId <;> simp [findEvent, here]

theorem subs_cons (node : EventNode) (rest : List EventNode) (eventId : UInt32) :
    subs (node :: rest) eventId =
      if node.eventId = eventId then node.subList else subs rest eventId := by
  rw [subs, findEvent_cons]
  split
  · rfl
  · rfl

theorem findEvent_eq_none_iff : findEvent evlist eventId = none ↔ eventId ∉ ids evlist := by
  simp [findEvent, ids]

theorem subs_of_notMem (absent : eventId ∉ ids evlist) : subs evlist eventId = [] := by
  rw [subs, findEvent_eq_none_iff.mpr absent]
  rfl

theorem subs_of_find {ev : EventNode} (found : findEvent evlist eventId = some ev) :
    subs evlist eventId = ev.subList := by
  rw [subs, found]
  rfl

theorem mem_ids_of_find {ev : EventNode} (found : findEvent evlist eventId = some ev) :
    eventId ∈ ids evlist := by
  by_contra absent
  rw [findEvent_eq_none_iff.mpr absent] at found
  cases found

theorem ids_updateEvent (eventId : UInt32) (subList : List Subscription) :
    ∀ evlist : List EventNode, ids (updateEvent eventId subList evlist) = ids evlist
  | [] => rfl
  | node :: rest => by
    rw [updateEvent]
    split
    · rfl
    · exact congrArg (node.eventId :: ·) (ids_updateEvent eventId subList rest)

theorem subs_updateEvent (subList : List Subscription) (i : UInt32) :
    ∀ evlist : List EventNode, eventId ∈ ids evlist →
      subs (updateEvent eventId subList evlist) i = if i = eventId then subList else subs evlist i
  | node :: rest, present => by
    rw [updateEvent]
    split
    next here => simp only [subs_cons, here, eq_comm]; split <;> rfl
    rename_i other
    have later : eventId ∈ ids rest := (mem_cons.mp present).resolve_left (Ne.symm other)
    rw [subs_cons, subs_cons, subs_updateEvent subList i rest later]
    by_cases here : node.eventId = i
    · have apart : i ≠ eventId := fun same => other (here.trans same)
      simp [here, apart]
    · simp [here]

theorem ids_deleteEvent (eventId : UInt32) :
    ∀ evlist : List EventNode, ids (deleteEvent eventId evlist) = (ids evlist).erase eventId
  | [] => rfl
  | node :: rest => by
    have later := ids_deleteEvent eventId rest
    by_cases here : node.eventId = eventId
    · simp [ids, deleteEvent, here]
    · simpa [ids, deleteEvent, here] using later

theorem subs_deleteEvent {i : UInt32} (apart : i ≠ eventId) :
    ∀ evlist : List EventNode, subs (deleteEvent eventId evlist) i = subs evlist i
  | [] => rfl
  | node :: rest => by
    have later := subs_deleteEvent apart rest
    by_cases here : node.eventId = eventId
    · simp [deleteEvent, here, subs_cons, apart.symm]
    · simp only [deleteEvent, eraseP_cons, here, subs_cons] at later ⊢
      simp [subs_cons, later]

/-! ## What a call does to the nodes -/

/-- The subscriptions to one identifier have become the given ones. -/
structure Becomes (before after : List EventNode) (eventId : UInt32) (subList : List Subscription) :
    Prop where
  nodup : (ids after).Nodup
  here : subs after eventId = subList
  others : ∀ i, i ≠ eventId → subs after i = subs before i
  fewer : ∀ i ∈ ids after, i = eventId ∨ i ∈ ids before

variable {sub : Subscription} {eventAlloc subAlloc : Bool}

section

variable (nodup : (ids evlist).Nodup)

include nodup

theorem becomes_same : Becomes evlist evlist eventId (subs evlist eventId) :=
  ⟨nodup, rfl, fun _ _ => rfl, fun _ present => .inr present⟩

theorem becomes_new (absent : eventId ∉ ids evlist) (subList : List Subscription) :
    Becomes evlist (⟨eventId, subList⟩ :: evlist) eventId subList where
  nodup := nodup_cons.mpr ⟨absent, nodup⟩
  here := by simp [subs_cons]
  others i apart := by simp [subs_cons, apart.symm]
  fewer i present := mem_cons.mp present

theorem becomes_update (present : eventId ∈ ids evlist) (subList : List Subscription) :
    Becomes evlist (updateEvent eventId subList evlist) eventId subList where
  nodup := by rwa [ids_updateEvent]
  here := by rw [subs_updateEvent subList eventId evlist present, if_pos rfl]
  others i apart := by rw [subs_updateEvent subList i evlist present, if_neg apart]
  fewer i member := .inr (by rwa [ids_updateEvent] at member)

theorem notMem_deleteEvent : eventId ∉ ids (deleteEvent eventId evlist) := by
  rw [ids_deleteEvent]
  exact nodup.not_mem_erase

theorem becomes_delete :
    Becomes evlist (deleteEvent eventId evlist) eventId [] where
  nodup := by
    rw [ids_deleteEvent]
    exact nodup.erase eventId
  here := subs_of_notMem (notMem_deleteEvent nodup)
  others i apart := subs_deleteEvent apart evlist
  fewer i member := .inr (by rw [ids_deleteEvent] at member; exact mem_of_mem_erase member)

theorem yocEventSubscribe_becomes :
    ((yocEventSubscribe evlist eventId sub eventAlloc subAlloc).1 = 0 ∧ sub ∉ subs evlist eventId ∧
      Becomes evlist (yocEventSubscribe evlist eventId sub eventAlloc subAlloc).2 eventId
        (sub :: subs evlist eventId)) ∨
    ((yocEventSubscribe evlist eventId sub eventAlloc subAlloc).1 = -1 ∧
      Becomes evlist (yocEventSubscribe evlist eventId sub eventAlloc subAlloc).2 eventId
        (subs evlist eventId)) := by
  unfold yocEventSubscribe
  cases found : findEvent evlist eventId with
  | none =>
    have absent := findEvent_eq_none_iff.mp found
    have empty := subs_of_notMem absent
    dsimp only
    split
    · exact .inr ⟨rfl, becomes_same nodup⟩
    · split
      · exact .inr ⟨rfl, by rw [empty]; exact becomes_new nodup absent []⟩
      · exact .inl ⟨rfl, by simp [empty], by rw [empty]; exact becomes_new nodup absent [sub]⟩
  | some ev =>
    rw [subs_of_find found]
    dsimp only
    split
    next => exact .inr ⟨rfl, subs_of_find found ▸ becomes_same nodup⟩
    next fresh =>
      exact .inl ⟨rfl, fun member => fresh (.inl member),
        becomes_update nodup (mem_ids_of_find found) _⟩

end

theorem yocEventSubscribe_filled (filled : eventId ∈ ids evlist → subs evlist eventId ≠ [])
    (both : findEvent evlist eventId = none → eventAlloc = true → subAlloc = true)
    (present : eventId ∈ ids (yocEventSubscribe evlist eventId sub eventAlloc subAlloc).2) :
    subs (yocEventSubscribe evlist eventId sub eventAlloc subAlloc).2 eventId ≠ [] := by
  unfold yocEventSubscribe at present ⊢
  cases found : findEvent evlist eventId with
  | none =>
    simp only [found] at present ⊢
    split at present
    next => exact absurd present (findEvent_eq_none_iff.mp found)
    next alloc =>
      have second := both found (by simpa using alloc)
      simp [alloc, second, subs_cons]
  | some ev =>
    simp only [found] at present ⊢
    split
    next => exact filled (mem_ids_of_find found)
    next => simp [subs_updateEvent _ _ _ (mem_ids_of_find found)]

theorem yocEventUnsubscribe_becomes (nodup : (ids evlist).Nodup) :
    Becomes evlist (yocEventUnsubscribe evlist eventId sub).2 eventId
      ((subs evlist eventId).erase sub) := by
  unfold yocEventUnsubscribe
  cases found : findEvent evlist eventId with
  | none =>
    have empty := subs_of_notMem (findEvent_eq_none_iff.mp found)
    have same : Becomes evlist evlist eventId _ := becomes_same nodup
    simpa [empty] using same
  | some ev =>
    have same := subs_of_find found
    by_cases member : sub ∈ ev.subList
    · simp only [member, if_true, same]
      split
      next empty => exact empty ▸ becomes_delete nodup
      next => exact becomes_update nodup (mem_ids_of_find found) _
    · simp only [member, if_false, same, erase_of_not_mem member]
      exact same ▸ becomes_same nodup

theorem yocEventUnsubscribe_filled (nodup : (ids evlist).Nodup)
    (filled : eventId ∈ ids evlist → subs evlist eventId ≠ [])
    (present : eventId ∈ ids (yocEventUnsubscribe evlist eventId sub).2) :
    eventId ∈ ids evlist ∧ subs (yocEventUnsubscribe evlist eventId sub).2 eventId ≠ [] := by
  unfold yocEventUnsubscribe at present ⊢
  cases found : findEvent evlist eventId with
  | none =>
    simp only [found] at present
    exact absurd present (findEvent_eq_none_iff.mp found)
  | some ev =>
    refine ⟨mem_ids_of_find found, ?_⟩
    simp only [found] at present ⊢
    split
    next member =>
      rw [if_pos member] at present
      by_cases empty : ev.subList.erase sub = []
      · simp only [empty, if_true] at present
        exact absurd present (notMem_deleteEvent nodup)
      · simp [empty, subs_updateEvent _ _ _ (mem_ids_of_find found)]
    next => exact filled (mem_ids_of_find found)

theorem yocEventRemove_becomes (nodup : (ids evlist).Nodup) :
    Becomes evlist (yocEventRemove evlist eventId) eventId [] ∧
      eventId ∉ ids (yocEventRemove evlist eventId) := by
  unfold yocEventRemove
  cases found : findEvent evlist eventId with
  | none =>
    have absent := findEvent_eq_none_iff.mp found
    exact ⟨subs_of_notMem absent ▸ becomes_same nodup, absent⟩
  | some ev => exact ⟨becomes_delete nodup, notMem_deleteEvent nodup⟩

/-! ## The relation that the list stands for -/

/-- The list stands for the relation. -/
structure Related (evlist : List EventNode) (subscribed : Relation) : Prop where
  nodup : (ids evlist).Nodup
  once : ∀ i, (subs evlist i).Nodup
  iff : ∀ key s, subscribed key s ↔ ¬ key.Refused ∧ s ∈ subs evlist key.eventId

/-- The nodes of descriptors are those of sockets other than 0, and have subscriptions. -/
def Live (sockets : Sockets) (evlist : List EventNode) : Prop :=
  ∀ fd, ¬ (Key.fd fd).Refused → (Key.fd fd).eventId ∈ ids evlist →
    fd ≠ 0 ∧ sockets.Has fd ∧ subs evlist (Key.fd fd).eventId ≠ []

variable {evlist' : List EventNode} {subscribed' : Relation} {subList : List Subscription}

theorem Related.becomes (related : Related evlist subscribed) (valid : ¬ key.Refused)
    (becomes : Becomes evlist evlist' key.eventId subList) (once : subList.Nodup)
    (here : ∀ s, subscribed' key s ↔ s ∈ subList)
    (others : ∀ k s, k ≠ key → (subscribed' k s ↔ subscribed k s)) :
    Related evlist' subscribed' where
  nodup := becomes.nodup
  once i := by
    by_cases same : i = key.eventId
    · rwa [same, becomes.here]
    · rw [becomes.others i same]
      exact related.once i
  iff k s := by
    by_cases same : k = key
    · rw [same, here, becomes.here, and_iff_right valid]
    rw [others k s same, related.iff]
    refine and_congr_right fun valid' => ?_
    have apart : k.eventId ≠ key.eventId := fun equal => same (Key.eventId_inj valid' valid equal)
    rw [becomes.others _ apart]

theorem Live.becomes (live : Live sockets evlist) (valid : ¬ key.Refused)
    (becomes : Becomes evlist evlist' key.eventId subList)
    (filled : ∀ fd, key = .fd fd → key.eventId ∈ ids evlist' →
      fd ≠ 0 ∧ sockets.Has fd ∧ subs evlist' key.eventId ≠ []) : Live sockets evlist' := by
  intro fd valid' present
  by_cases same : Key.fd fd = key
  · rw [same] at present ⊢
    exact filled fd same.symm present
  have apart : (Key.fd fd).eventId ≠ key.eventId := fun equal =>
    same (Key.eventId_inj valid' valid equal)
  rw [becomes.others _ apart]
  exact live fd valid' ((becomes.fewer _ present).resolve_left apart)

theorem Related.not_refused (related : Related evlist subscribed) {s : Subscription}
    (member : subscribed key s) : ¬ key.Refused :=
  ((related.iff key s).mp member).1

variable {s : Subscription}

section

variable (related : Related evlist subscribed)

include related

theorem related_subscribe :
    Related (eventlistSubscribe evlist key s eventAlloc subAlloc).2
      (follow subscribed (.subscribe key s eventAlloc subAlloc)
        (eventlistSubscribe evlist key s eventAlloc subAlloc).1) := by
  unfold eventlistSubscribe
  split
  next => simpa [follow] using related
  rename_i valid
  have here : ∀ x, subscribed key x ↔ x ∈ subs evlist key.eventId := fun x => by
    rw [related.iff, and_iff_right valid]
  obtain ⟨ret, fresh, becomes⟩ | ⟨ret, becomes⟩ :=
    @yocEventSubscribe_becomes evlist key.eventId s eventAlloc subAlloc related.nodup
  · refine related.becomes valid becomes (nodup_cons.mpr ⟨fresh, related.once _⟩) ?_ ?_
    · intro x
      simp [follow, ret, here, or_comm]
    · intro k x apart
      simp [follow, apart]
  refine related.becomes valid becomes (related.once _) ?_ ?_
  · intro x
    simp [follow, ret, here]
  · intro k x apart
    simp [follow, apart]

theorem related_unsubscribe (ret : Int) :
    Related (eventlistUnsubscribe evlist key s).2 (follow subscribed (.unsubscribe key s) ret) := by
  unfold eventlistUnsubscribe
  split
  next refused =>
    have same : follow subscribed (.unsubscribe key s) ret = subscribed := by
      funext k x
      refine propext (and_iff_left_of_imp fun member => ?_)
      rintro ⟨rfl, -⟩
      exact related.not_refused member refused
    rwa [same]
  rename_i valid
  refine related.becomes valid (yocEventUnsubscribe_becomes related.nodup)
    ((related.once _).erase s) ?_ ?_
  · intro x
    simp only [follow, true_and]
    rw [related.iff, and_iff_right valid, (related.once _).mem_erase_iff, and_comm]
  · intro k x apart
    simp [follow, apart]

theorem related_remove (ret : Int) :
    Related (eventlistRemove evlist key).2 (follow subscribed (.remove key) ret) := by
  unfold eventlistRemove
  split
  next refused =>
    have same : follow subscribed (.remove key) ret = subscribed := by
      funext k x
      refine propext (and_iff_left_of_imp fun member => ?_)
      rintro rfl
      exact related.not_refused member refused
    rwa [same]
  rename_i valid
  refine related.becomes valid (yocEventRemove_becomes related.nodup).1 nodup_nil ?_ ?_
  · intro x
    simp [follow]
  · intro k x apart
    simp [follow, apart]

theorem perform_related (call : Call) :
    ∃ ret evlist', perform evlist call = .ok (ret, evlist') ∧
      Related evlist' (follow subscribed call ret) := by
  cases call with
  | subscribe key s eventAlloc subAlloc => exact ⟨_, _, rfl, related_subscribe related⟩
  | unsubscribe key s => exact ⟨_, _, rfl, related_unsubscribe related _⟩
  | remove key => exact ⟨_, _, rfl, related_remove related _⟩

section

variable (live : Live sockets evlist)

include live

theorem live_subscribe (kept : Kept sockets evlist (.subscribe key s eventAlloc subAlloc)) :
    Live sockets (eventlistSubscribe evlist key s eventAlloc subAlloc).2 := by
  unfold eventlistSubscribe
  split
  next => exact live
  rename_i valid
  have filled : ∀ fd, key = .fd fd →
      key.eventId ∈ ids (yocEventSubscribe evlist key.eventId s eventAlloc subAlloc).2 →
      fd ≠ 0 ∧ sockets.Has fd ∧
        subs (yocEventSubscribe evlist key.eventId s eventAlloc subAlloc).2 key.eventId ≠ [] := by
    rintro fd rfl present
    obtain ⟨nonzero, socket, both⟩ := kept
    exact ⟨nonzero, socket, yocEventSubscribe_filled
      (fun before => (live fd valid before).2.2) both present⟩
  obtain ⟨-, -, becomes⟩ | ⟨-, becomes⟩ :=
    @yocEventSubscribe_becomes evlist key.eventId s eventAlloc subAlloc related.nodup
  · exact live.becomes valid becomes filled
  · exact live.becomes valid becomes filled

theorem live_unsubscribe : Live sockets (eventlistUnsubscribe evlist key s).2 := by
  unfold eventlistUnsubscribe
  split
  next => exact live
  rename_i valid
  refine live.becomes valid (yocEventUnsubscribe_becomes related.nodup) ?_
  rintro fd rfl present
  obtain ⟨before, filled⟩ := yocEventUnsubscribe_filled related.nodup
    (fun before => (live fd valid before).2.2) present
  obtain ⟨nonzero, socket, -⟩ := live fd valid before
  exact ⟨nonzero, socket, filled⟩

theorem live_remove : Live sockets (eventlistRemove evlist key).2 := by
  unfold eventlistRemove
  split
  next => exact live
  next valid =>
    obtain ⟨becomes, gone⟩ := @yocEventRemove_becomes evlist key.eventId related.nodup
    exact live.becomes valid becomes fun fd _ present => absurd present gone

theorem perform_live {call : Call} (kept : Kept sockets evlist call) :
    ∃ ret evlist', perform evlist call = .ok (ret, evlist') ∧
      Related evlist' (follow subscribed call ret) ∧ Live sockets evlist' := by
  cases call with
  | subscribe key s eventAlloc subAlloc =>
    exact ⟨_, _, rfl, related_subscribe related, live_subscribe related live kept⟩
  | unsubscribe key s =>
    exact ⟨_, _, rfl, related_unsubscribe related _, live_unsubscribe related live⟩
  | remove key => exact ⟨_, _, rfl, related_remove related _, live_remove related live⟩

end

end

/-! ## Publishing and collecting -/

theorem eventlistPublish_eq (evlist : List EventNode) (valid : ¬ key.Refused) (data : Nat) :
    eventlistPublish evlist key data =
      (subs evlist key.eventId).map fun s => ⟨s.ecb, key.eventId, data, s.context⟩ := by
  rw [eventlistPublish, if_neg valid, eventPublish]
  cases found : findEvent evlist key.eventId with
  | none => simp [subs, found]
  | some ev =>
    have same : ev.eventId = key.eventId := by simpa using find?_some found
    simp [subs, found, same]

theorem Related.publishes (related : Related evlist subscribed) : Publishes evlist subscribed := by
  intro key data
  by_cases refused : key.Refused
  · refine ⟨[], nodup_nil, fun s => ?_, by simp [eventlistPublish, refused]⟩
    simp [related.iff, refused]
  · refine ⟨subs evlist key.eventId, related.once _, fun s => ?_,
      eventlistPublish_eq evlist refused data⟩
    rw [related.iff, and_iff_right refused]

def fds (evlist : List EventNode) : List UInt32 :=
  ((ids evlist).filter fun id => fdMask < id).map fun id => id &&& ~~~fdMask

theorem mem_fds_iff {fd : UInt32} :
    fd ∈ fds evlist ↔ fd ≠ 0 ∧ ¬ (Key.fd fd).Refused ∧ (Key.fd fd).eventId ∈ ids evlist := by
  simp only [fds, mem_map, mem_filter, decide_eq_true_eq, Key.not_refused_iff, Key.number,
    Key.eventId, UInt32.lt_iff_toNat_lt, ne_eq, ← UInt32.toNat_inj]
  constructor
  · rintro ⟨id, ⟨present, above⟩, unmasked⟩
    have mask : fdMask.toNat = 2 ^ 31 := rfl
    have range := id.toNat_lt
    rw [toNat_unmask] at unmasked
    have small : fd.toNat < 2 ^ 31 := by omega
    have same : fd ||| fdMask = id := by
      rw [← UInt32.toNat_inj, toNat_mask small]
      omega
    exact ⟨by simp; omega, small, same ▸ present⟩
  rintro ⟨nonzero, small, present⟩
  have masked := toNat_mask small
  refine ⟨fd ||| fdMask, ⟨present, ?_⟩, ?_⟩
  · have mask : fdMask.toNat = 2 ^ 31 := rfl
    have zero : (0 : UInt32).toNat = 0 := rfl
    omega
  · rw [toNat_unmask]
    omega

theorem FdSet.isSet_set (sockets : Sockets) (readfds : FdSet) (fd fd' : UInt32) :
    (readfds.set sockets fd).isSet sockets fd' = true ↔
      readfds.isSet sockets fd' = true ∨ (sockets.Has fd' ∧ fd' = fd) := by
  by_cases has : sockets.Has fd'
  · have same : sockets.Has fd ∧ fd'.toNat - sockets.offset = fd.toNat - sockets.offset ↔
        fd' = fd := by
      constructor
      · rintro ⟨has', equal⟩
        rw [← UInt32.toNat_inj]
        have low := has.1
        have low' := has'.1
        omega
      · rintro rfl
        exact ⟨has, rfl⟩
    simp only [FdSet.isSet, FdSet.set, has, if_true, same, true_and]
    by_cases equal : fd' = fd <;> simp [equal]
  · simp [FdSet.isSet, has]

theorem foldl_setfdNode (sockets : Sockets) :
    ∀ (evlist : List EventNode) (readfds : FdSet) (maxFd : UInt32),
      evlist.foldl (setfdNode sockets) (readfds, maxFd) =
        ((fds evlist).foldl (FdSet.set sockets) readfds,
          (fds evlist).foldl (fun high fd => if high < fd then fd else high) maxFd)
  | [], readfds, maxFd => rfl
  | node :: rest, readfds, maxFd => by
    by_cases above : fdMask < node.eventId
    · simp [fds, ids, setfdNode, above, foldl_setfdNode sockets rest]
    · simp [fds, ids, setfdNode, above, foldl_setfdNode sockets rest]

theorem isSet_foldl (sockets : Sockets) (fd : UInt32) :
    ∀ (taken : List UInt32) (readfds : FdSet),
      (taken.foldl (FdSet.set sockets) readfds).isSet sockets fd = true ↔
        readfds.isSet sockets fd = true ∨ (sockets.Has fd ∧ fd ∈ taken)
  | [], readfds => by simp
  | first :: rest, readfds => by
    rw [foldl_cons, isSet_foldl, FdSet.isSet_set, mem_cons, or_assoc, ← and_or_left]

theorem foldl_largest : ∀ (taken : List UInt32) (high : UInt32), (∀ fd ∈ high :: taken,
          fd ≤ taken.foldl (fun high fd => if high < fd then fd else high) high) ∧
        taken.foldl (fun high fd => if high < fd then fd else high) high ∈ high :: taken
  | [], high => by simp
  | first :: rest, high => by
    by_cases below : high < first
    · obtain ⟨bound, member⟩ := foldl_largest rest first
      simp only [foldl_cons, if_pos below]
      refine ⟨fun fd present => ?_, mem_cons_of_mem _ member⟩
      rcases mem_cons.mp present with rfl | present
      · exact UInt32.le_trans (UInt32.le_of_lt below) (bound first mem_cons_self)
      · exact bound fd present
    obtain ⟨bound, member⟩ := foldl_largest rest high
    simp only [foldl_cons, if_neg below]
    refine ⟨fun fd present => ?_, ?_⟩
    · rcases mem_cons.mp present with rfl | present
      · exact bound fd mem_cons_self
      · rcases mem_cons.mp present with rfl | present
        · exact UInt32.le_trans (UInt32.not_lt.mp below) (bound high mem_cons_self)
        · exact bound fd (mem_cons_of_mem _ present)
    · rcases mem_cons.mp member with same | member
      · exact mem_cons.mpr (.inl same)
      · exact mem_cons_of_mem _ (mem_cons_of_mem _ member)

theorem Live.mem_fds_iff (live : Live sockets evlist) (related : Related evlist subscribed)
    (fd : UInt32) : fd ∈ fds evlist ↔ ∃ s, subscribed (.fd fd) s := by
  rw [EventList.mem_fds_iff]
  constructor
  · rintro ⟨-, valid, present⟩
    obtain ⟨s, member⟩ := exists_mem_of_ne_nil _ (live fd valid present).2.2
    exact ⟨s, (related.iff _ s).mpr ⟨valid, member⟩⟩
  rintro ⟨s, member⟩
  obtain ⟨valid, member⟩ := (related.iff _ s).mp member
  have present : (Key.fd fd).eventId ∈ ids evlist := by
    by_contra absent
    rw [subs_of_notMem absent] at member
    cases member
  exact ⟨(live fd valid present).1, valid, present⟩

theorem Live.setsDescriptors (live : Live sockets evlist) (related : Related evlist subscribed) :
    SetsDescriptors sockets evlist subscribed := by
  obtain ⟨bound, member⟩ := foldl_largest _ 0
  refine ⟨fun fd => ?_, fun fd s present => ?_, ?_⟩
  · have has : fd ∈ fds evlist → sockets.Has fd := fun taken => by
      obtain ⟨-, valid, present⟩ := EventList.mem_fds_iff.mp taken
      exact (live fd valid present).2.1
    rw [eventlistSetfd, foldl_setfdNode, isSet_foldl, ← live.mem_fds_iff related,
      and_iff_right_of_imp has]
    simp [FdSet.isSet, FdSet.zero]
  · rw [eventlistSetfd, foldl_setfdNode]
    exact bound fd (mem_cons_of_mem _ ((live.mem_fds_iff related fd).mpr ⟨s, present⟩))
  rintro ⟨fd, some⟩
  have taken := (live.mem_fds_iff related fd).mpr some
  rw [← live.mem_fds_iff related, eventlistSetfd, foldl_setfdNode]
  rcases mem_cons.mp member with zero | member
  · have zero' : fd = 0 := by
      have below := bound fd (mem_cons_of_mem _ taken)
      rw [zero] at below
      exact UInt32.le_zero_iff.mp below
    rw [zero]
    exact zero' ▸ taken
  · exact member

/-! ## Every sequence of calls -/

/-- **The list stands for the relation of the subscriptions.** -/
theorem eventlist_relation (sockets : Sockets) (calls : List Call) :
    ∃ rets evlist, run perform [] calls = .ok (rets, evlist) ∧
      Publishes evlist (track follow (fun _ _ => False) calls rets) ∧
      (Guarded perform (Kept sockets) [] calls →
        SetsDescriptors sockets evlist (track follow (fun _ _ => False) calls rets)) := by
  have start : Related [] fun _ _ => False :=
    ⟨nodup_nil, fun _ => nodup_nil, by simp [subs, findEvent]⟩
  have startLive : Live sockets [] := fun fd _ present => by cases present
  have simulates : ∀ s m call, Related s m → True →
      ∃ ret s', perform s call = .ok (ret, s') ∧ Related s' _ :=
    fun s m call related _ => perform_related related call
  have simulatesLive : ∀ s m call, Related s m ∧ Live sockets s → Kept sockets s call →
      ∃ ret s', perform s call = .ok (ret, s') ∧ Related s' _ ∧ Live sockets s' :=
    fun s m call both kept => perform_live both.1 both.2 kept
  obtain ⟨rets, evlist, done, -, related⟩ := run_simulates simulates calls [] _ start
    (guarded_of_forall (fun _ _ => trivial) calls [])
  refine ⟨rets, evlist, done, related.publishes, fun guarded => ?_⟩
  -- The run is the same one; the condition adds the nodes that it leaves.
  obtain ⟨rets', evlist', done', -, related', live⟩ :=
    run_simulates simulatesLive calls [] _ ⟨start, startLive⟩ guarded
  obtain ⟨rfl, rfl⟩ := Prod.mk.inj (Except.ok.inj (done.symm.trans done'))
  exact live.setsDescriptors related

theorem eventlist_relation_sockets :
    Guarded perform (Kept ⟨20, 8⟩) []
      [.subscribe (.fd 21) ⟨1, 0⟩ true true, .subscribe (.fd 21) ⟨2, 0⟩ true true,
        .subscribe (.event 1) ⟨1, 0⟩ true true, .unsubscribe (.fd 21) ⟨1, 0⟩] ∧
    ∃ rets evlist, run perform []
        [.subscribe (.fd 21) ⟨1, 0⟩ true true, .subscribe (.fd 21) ⟨2, 0⟩ true true,
          .subscribe (.event 1) ⟨1, 0⟩ true true, .unsubscribe (.fd 21) ⟨1, 0⟩] =
        .ok (rets, evlist) ∧
      SetsDescriptors ⟨20, 8⟩ evlist (track follow (fun _ _ => False)
        [.subscribe (.fd 21) ⟨1, 0⟩ true true, .subscribe (.fd 21) ⟨2, 0⟩ true true,
          .subscribe (.event 1) ⟨1, 0⟩ true true, .unsubscribe (.fd 21) ⟨1, 0⟩] rets) := by
  have guarded : Guarded perform (Kept ⟨20, 8⟩) []
      [.subscribe (.fd 21) ⟨1, 0⟩ true true, .subscribe (.fd 21) ⟨2, 0⟩ true true,
        .subscribe (.event 1) ⟨1, 0⟩ true true, .unsubscribe (.fd 21) ⟨1, 0⟩] := by
    refine ⟨⟨by decide, by decide, fun _ _ => rfl⟩, fun _ _ _ => ?_⟩
    refine ⟨⟨by decide, by decide, fun _ _ => rfl⟩, fun _ _ _ => ?_⟩
    exact ⟨trivial, fun _ _ _ => ⟨trivial, fun _ _ _ => trivial⟩⟩
  obtain ⟨rets, evlist, done, -, sets⟩ := eventlist_relation ⟨20, 8⟩
    [.subscribe _ ⟨1, 0⟩ true true, .subscribe _ ⟨2, 0⟩ true true,
      .subscribe _ ⟨1, 0⟩ true true, .unsubscribe _ ⟨1, 0⟩]
  exact ⟨guarded, rets, evlist, done, sets guarded⟩

/-- The descriptor 0 has a subscriber and is not set, though it is one of the sockets. -/
theorem descriptor_zero_not_set :
    ∃ evlist, run perform [] [.subscribe (.fd 0) ⟨1, 0⟩ true true] = .ok ([0], evlist) ∧
      eventlistPublish evlist (.fd 0) 7 = [⟨1, fdMask, 7, 0⟩] ∧
      (Sockets.mk 0 4).Has 0 ∧ (eventlistSetfd ⟨0, 4⟩ evlist).1.isSet ⟨0, 4⟩ 0 = false := by
  refine ⟨_, rfl, ?_, ?_, ?_⟩
  · decide
  · decide
  · decide

end Phy6212.EventList
