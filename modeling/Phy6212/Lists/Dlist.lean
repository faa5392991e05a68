import Mathlib.Data.List.Chain
import Mathlib.Data.List.Nodup

/-!
# Doubly linked rings

Intrusive lists as rings through a head: `Ring` says that the links forward meet the given addresses
in order, that the links back agree, and that no address is met twice.
-/

namespace Dlist

open List

universe u v

variable {α : Type u} [DecidableEq α]

structure Link (α : Type u) where
  prev : α
  next : α

abbrev Links (α : Type u) : Type u := α → Link α

def setNext (m : Links α) (a b : α) : Links α := Function.update m a { m a with next := b }

def setPrev (m : Links α) (a b : α) : Links α := Function.update m a { m a with prev := b }

def add (m : Links α) (node prev next : α) : Links α :=
  setPrev (setNext (setPrev (setNext m node next) node prev) prev node) next node

def addTail (m : Links α) (node queue : α) : Links α := add m node (m queue).prev queue

def del (m : Links α) (node : α) : Links α :=
  setPrev (setNext m (m node).prev (m node).next) (m node).next (m node).prev

def init (m : Links α) (node : α) : Links α := setNext (setPrev m node node) node node

/-- The loop over the entries, left at the first one at which to stop. -/
def seek (m : Links α) (head : α) (stop : α → Option Bool) : Nat → α → Option α
  | 0, _ => none
  | fuel + 1, cursor =>
    if cursor = head then some head
    else
      match stop cursor with
      | none => none
      | some true => some cursor
      | some false => seek m head stop fuel (m cursor).next

variable (m : Links α) (a b c : α)

@[simp] theorem next_setNext : (setNext m a b c).next = if c = a then b else (m c).next := by
  by_cases here : c = a
  · simp [setNext, here]
  · simp [setNext, here]

@[simp] theorem prev_setNext : (setNext m a b c).prev = (m c).prev := by
  by_cases here : c = a
  · simp [setNext, here]
  · simp [setNext, here]

@[simp] theorem prev_setPrev : (setPrev m a b c).prev = if c = a then b else (m c).prev := by
  by_cases here : c = a
  · simp [setPrev, here]
  · simp [setPrev, here]

@[simp] theorem next_setPrev : (setPrev m a b c).next = (m c).next := by
  by_cases here : c = a
  · simp [setPrev, here]
  · simp [setPrev, here]

def Joined (m : Links α) (a b : α) : Prop := (m a).next = b ∧ (m b).prev = a

/-- The entries of the list with the given head, in their order. -/
structure Ring (m : Links α) (head : α) (l : List α) : Prop where
  joined : (head :: (l ++ [head])).IsChain (Joined m)
  nodup : (head :: l).Nodup

section Rings

variable {m m' : Links α} {head node : α} {l l₁ l₂ : List α}

omit [DecidableEq α] in
theorem isChain_joined_of_eq (joined : l.IsChain (Joined m))
    (next : ∀ a ∈ l.dropLast, (m' a).next = (m a).next)
    (prev : ∀ a ∈ l.tail, (m' a).prev = (m a).prev) : l.IsChain (Joined m') := by
  induction l with
  | nil => exact .nil
  | cons a l ih =>
    cases l with
    | nil => exact .singleton a
    | cons b l =>
      obtain ⟨first, rest⟩ := isChain_cons_cons.mp joined
      have a_next := next a (by simp)
      have b_prev := prev b (by simp)
      refine isChain_cons_cons.mpr ⟨⟨a_next.trans first.1, b_prev.trans first.2⟩, ?_⟩
      refine ih rest (fun c member => next c ?_) (fun c member => prev c ?_)
      · rw [dropLast_cons_cons]
        exact mem_cons_of_mem _ member
      · exact mem_cons_of_mem _ member

theorem ring_init (m : Links α) (head : α) : Ring (init m head) head [] where
  joined := isChain_cons_cons.mpr ⟨by simp [Joined, init], .singleton head⟩
  nodup := by simp

omit [DecidableEq α] in
theorem isChain_ring_iff (m : Links α) (head : α) (l₁ l₂ : List α) :
    (head :: ((l₁ ++ l₂) ++ [head])).IsChain (Joined m) ↔
      (head :: l₁).IsChain (Joined m) ∧ Joined m (l₁.getLastD head) (l₂.headD head) ∧
        (l₂ ++ [head]).IsChain (Joined m) := by
  rw [append_assoc, ← cons_append, isChain_append]
  have last : ∀ a, a ∈ (head :: l₁).getLast? ↔ a = l₁.getLastD head := by
    intro a
    rw [getLast?_cons, Option.mem_some_iff, getLastD_eq_getLast?, eq_comm]
  have first : ∀ a, a ∈ (l₂ ++ [head]).head? ↔ a = l₂.headD head := by
    intro a
    cases l₂ <;> simp [eq_comm]
  simp only [last, first, forall_eq]
  tauto

structure Apart (head : α) (l₁ l₂ : List α) (p c : α) : Prop where
  last : ∀ a ∈ (head :: l₁).dropLast, a ≠ p
  before : ∀ a ∈ l₁, a ≠ c
  behind : ∀ a ∈ l₂, a ≠ p
  first : ∀ a ∈ (l₂ ++ [head]).tail, a ≠ c

omit [DecidableEq α] in
theorem apart_of_nodup (nodup : (head :: (l₁ ++ l₂)).Nodup) :
    Apart head l₁ l₂ (l₁.getLastD head) (l₂.headD head) := by
  obtain ⟨left, right, cross⟩ := nodup_append.mp (cons_append ▸ nodup)
  refine ⟨?_, ?_, ?_, ?_⟩
  · intro a member
    rw [← dropLast_concat_getLast (cons_ne_nil head l₁), getLast_eq_getLastD,
      nodup_append] at left
    exact left.2.2 a member _ (mem_singleton_self _)
  · intro a member
    cases l₂ with
    | nil =>
      rintro rfl
      exact (nodup_cons.mp left).1 member
    | cons b l₂ => exact cross a (mem_cons_of_mem _ member) b mem_cons_self
  · intro a member
    exact (cross _ getLastD_mem_cons a member).symm
  · intro a member
    cases l₂ with
    | nil => cases member
    | cons b l₂ =>
      rcases mem_append.mp member with inside | at_head
      · rintro rfl
        exact (nodup_cons.mp right).1 inside
      · rw [mem_singleton.mp at_head]
        exact cross head mem_cons_self b mem_cons_self

/-- **Adding in front of a cursor**, which is the first of the later entries, or the head. -/
theorem Ring.addTail (ring : Ring m head (l₁ ++ l₂)) (fresh : node ∉ head :: (l₁ ++ l₂)) :
    Ring (addTail m node (l₂.headD head)) head (l₁ ++ node :: l₂) := by
  have apart := apart_of_nodup ring.nodup
  obtain ⟨before, neighbours, behind⟩ := (isChain_ring_iff m head l₁ l₂).mp ring.joined
  have p_fresh : l₁.getLastD head ≠ node := by
    rintro rfl
    exact fresh (cons_append ▸ mem_append_left _ getLastD_mem_cons)
  have c_fresh : l₂.headD head ≠ node := by
    rintro rfl
    cases l₂ <;> simp at fresh
  generalize left : l₁.getLastD head = p at *
  generalize right : l₂.headD head = c at *
  have next : ∀ a, a ≠ node → a ≠ p → (Dlist.addTail m node c a).next = (m a).next := by
    intro a not_node not_p
    simp [Dlist.addTail, add, neighbours.2, not_node, not_p]
  have prev : ∀ a, a ≠ node → a ≠ c → (Dlist.addTail m node c a).prev = (m a).prev := by
    intro a not_node not_c
    simp [Dlist.addTail, add, not_node, not_c]
  have other : ∀ a ∈ head :: (l₁ ++ l₂), a ≠ node := by
    rintro a member rfl
    exact fresh member
  refine ⟨(isChain_ring_iff _ _ _ _).mpr ⟨?_, ?_, ?_⟩, ?_⟩
  · refine isChain_joined_of_eq before (fun a member => ?_) (fun a member => ?_)
    · have inside : a ∈ head :: l₁ := dropLast_subset _ member
      exact next a (other a (by simp at inside ⊢; tauto)) (apart.last a member)
    · exact prev a (other a (by simp at member ⊢; tauto)) (apart.before a member)
  · rw [left]
    simp [Joined, Dlist.addTail, add, neighbours.2, c_fresh.symm]
  · rw [cons_append, isChain_cons]
    constructor
    · intro a at_front
      have cursor : a = c := by
        cases l₂ <;> simp_all
      simp [Joined, Dlist.addTail, add, neighbours.2, p_fresh.symm, cursor]
    refine isChain_joined_of_eq behind (fun a member => ?_) (fun a member => ?_)
    · rw [dropLast_concat] at member
      exact next a (other a (by simp; tauto)) (apart.behind a member)
    · have inside : a ∈ l₂ ++ [head] := mem_of_mem_tail member
      exact prev a (other a (by simp at inside ⊢; tauto)) (apart.first a member)
  · rw [← cons_append, nodup_middle, cons_append]
    exact nodup_cons.mpr ⟨fresh, ring.nodup⟩

theorem Ring.del (ring : Ring m head (l₁ ++ node :: l₂)) : Ring (del m node) head (l₁ ++ l₂) := by
  have nodup : (head :: (l₁ ++ l₂)).Nodup := by
    refine ring.nodup.sublist ?_
    simp
  have apart := apart_of_nodup nodup
  obtain ⟨before, ⟨-, node_prev⟩, rest⟩ := (isChain_ring_iff m head l₁ _).mp ring.joined
  obtain ⟨at_front, behind⟩ := isChain_cons.mp (cons_append ▸ rest)
  have node_next : (m node).next = l₂.headD head := by
    cases l₂ with
    | nil => exact (at_front head rfl).1
    | cons b l₂ => exact (at_front b rfl).1
  rw [headD_cons] at node_prev
  generalize left : l₁.getLastD head = p at *
  generalize right : l₂.headD head = c at *
  have next : ∀ a, a ≠ p → (Dlist.del m node a).next = (m a).next := by
    intro a not_p
    simp [Dlist.del, node_prev, not_p]
  have prev : ∀ a, a ≠ c → (Dlist.del m node a).prev = (m a).prev := by
    intro a not_c
    simp [Dlist.del, node_next, not_c]
  refine ⟨(isChain_ring_iff _ _ _ _).mpr ⟨?_, ?_, ?_⟩, nodup⟩
  · exact isChain_joined_of_eq before (fun a member => next a (apart.last a member))
      (fun a member => prev a (apart.before a member))
  · rw [left, right]
    simp [Joined, Dlist.del, node_prev, node_next]
  · refine isChain_joined_of_eq behind (fun a member => next a (apart.behind a ?_))
      (fun a member => prev a (apart.first a member))
    rwa [dropLast_concat] at member

section Seek

variable {stop : α → Option Bool} {stops : α → Bool}

theorem seek_of_isChain (chain : (l ++ [head]).IsChain (Joined m)) (not_head : head ∉ l)
    (looked : ∀ a ∈ l, stop a = some (stops a)) {fuel : Nat} (enough : l.length < fuel) :
    seek m head stop fuel (l.headD head) =
      some ((l.dropWhile fun a => !stops a).headD head) := by
  induction l generalizing fuel with
  | nil =>
    obtain ⟨fuel, rfl⟩ := Nat.exists_eq_succ_of_ne_zero (Nat.ne_of_gt enough)
    simp [seek]
  | cons a l ih =>
    obtain ⟨fuel, rfl⟩ := Nat.exists_eq_succ_of_ne_zero (Nat.ne_of_gt (Nat.zero_lt_of_lt enough))
    rw [mem_cons, not_or] at not_head
    obtain ⟨at_front, rest⟩ := isChain_cons.mp (cons_append ▸ chain)
    have a_next : (m a).next = l.headD head := by
      cases l with
      | nil => exact (at_front head rfl).1
      | cons b l => exact (at_front b rfl).1
    rw [headD_cons, seek, if_neg (Ne.symm not_head.1), looked a mem_cons_self]
    cases decided : stops a with
    | true => simp [decided]
    | false =>
      have behind := ih rest not_head.2 (fun b member => looked b (mem_cons_of_mem _ member))
        (Nat.lt_of_succ_lt_succ enough)
      rw [a_next, behind, dropWhile_cons_of_pos (by simp [decided])]

omit [DecidableEq α] in
theorem Ring.next_head (ring : Ring m head l) : (m head).next = l.headD head := by
  have first := (isChain_ring_iff m head [] l).mp ring.joined
  exact first.2.1.1

omit [DecidableEq α] in
theorem Ring.next {a : α} (ring : Ring m head (l₁ ++ a :: l₂)) : (m a).next = l₂.headD head := by
  have parts := (isChain_ring_iff m head (l₁ ++ [a]) l₂).mp (by
    rw [append_assoc l₁]
    exact ring.joined)
  rw [getLastD_concat] at parts
  exact parts.2.1.1

/-- **The loop finds the first entry at which to stop**, or comes back to the head. -/
theorem Ring.seek (ring : Ring m head l) (looked : ∀ a ∈ l, stop a = some (stops a))
    {fuel : Nat} (enough : l.length < fuel) :
    seek m head stop fuel (m head).next = some ((l.dropWhile fun a => !stops a).headD head) := by
  rw [ring.next_head]
  obtain ⟨-, -, chain⟩ := (isChain_ring_iff m head [] l).mp ring.joined
  exact seek_of_isChain chain (nodup_cons.mp ring.nodup).1 looked enough

end Seek

end Rings

section Listings

variable {β : Type v}

/-- The entries of a list with what is allocated at their addresses. -/
structure Listing (m : Links α) (heap : α → Option β) (head : α) (entries : List (α × β)) :
    Prop where
  ring : Ring m head (entries.map Prod.fst)
  stored : ∀ e ∈ entries, heap e.1 = some e.2

variable {m : Links α} {heap : α → Option β} {head node : α} {x : β}
  {entries l₁ l₂ : List (α × β)}

theorem dropWhile_congr {γ : Type v} {p q : γ → Bool} {l : List γ} (same : ∀ a ∈ l, p a = q a) :
    l.dropWhile p = l.dropWhile q := by
  induction l with
  | nil => rfl
  | cons a l ih =>
    rw [dropWhile_cons, dropWhile_cons, same a mem_cons_self,
      ih fun b member => same b (mem_cons_of_mem _ member)]

theorem listing_init (m : Links α) (heap : α → Option β) (head : α) :
    Listing (init m head) heap head [] where
  ring := ring_init m head
  stored := by simp

theorem Listing.seek (listing : Listing m heap head entries) (stops : β → Bool) {fuel : Nat}
    (enough : entries.length < fuel) :
    seek m head (fun a => (heap a).map stops) fuel (m head).next =
      some (((entries.dropWhile fun e => !stops e.2).map Prod.fst).headD head) := by
  let stopsAt : α → Bool := fun a => (heap a).any stops
  have looked : ∀ a ∈ entries.map Prod.fst, (heap a).map stops = some (stopsAt a) := by
    intro a member
    obtain ⟨e, inside, rfl⟩ := mem_map.mp member
    simp [stopsAt, listing.stored e inside]
  have same : (entries.map Prod.fst).dropWhile (fun a => !stopsAt a) =
      (entries.dropWhile fun e => !stops e.2).map Prod.fst := by
    rw [dropWhile_map]
    refine congrArg _ (dropWhile_congr fun e member => ?_)
    simp [stopsAt, listing.stored e member]
  rw [listing.ring.seek looked (by simpa using enough), same]

omit [DecidableEq α] in
theorem Listing.not_mem (listing : Listing m heap head entries) (free : heap node = none) :
    node ∉ entries.map Prod.fst := by
  intro member
  obtain ⟨e, inside, rfl⟩ := mem_map.mp member
  rw [listing.stored e inside] at free
  cases free

omit [DecidableEq α] in
theorem Listing.ne_head (listing : Listing m heap head entries) {e : α × β} (member : e ∈ entries) :
    e.1 ≠ head := by
  intro at_head
  refine (nodup_cons.mp listing.ring.nodup).1 ?_
  rw [← at_head]
  exact mem_map_of_mem member

theorem Listing.update (listing : Listing m heap head entries)
    (other : node ∉ entries.map Prod.fst) (content : Option β) :
    Listing m (Function.update heap node content) head entries where
  ring := listing.ring
  stored := by
    intro e member
    have elsewhere : e.1 ≠ node := by
      rintro rfl
      exact other (mem_map_of_mem member)
    rw [Function.update_of_ne elsewhere, listing.stored e member]

theorem Listing.addTail (listing : Listing m heap head (l₁ ++ l₂)) (not_head : node ≠ head)
    (free : heap node = none) :
    Listing (addTail m node ((l₂.map Prod.fst).headD head)) (Function.update heap node (some x))
      head (l₁ ++ (node, x) :: l₂) := by
  have other := listing.not_mem free
  have fresh : node ∉ head :: (l₁.map Prod.fst ++ l₂.map Prod.fst) := by
    rw [mem_cons, not_or, ← map_append]
    exact ⟨not_head, other⟩
  have ring : Ring m head (l₁.map Prod.fst ++ l₂.map Prod.fst) := by
    rw [← map_append]
    exact listing.ring
  constructor
  · rw [map_append, map_cons]
    exact ring.addTail fresh
  intro e member
  have inside : e = (node, x) ∨ e ∈ l₁ ++ l₂ := by
    simp only [mem_append, mem_cons] at member ⊢
    tauto
  rcases inside with rfl | inside
  · exact Function.update_self ..
  · exact (listing.update other _).stored e inside

theorem Listing.del (listing : Listing m heap head (l₁ ++ (node, x) :: l₂)) :
    Listing (del m node) heap head (l₁ ++ l₂) ∧ node ∉ (l₁ ++ l₂).map Prod.fst := by
  have ring : Ring m head (l₁.map Prod.fst ++ node :: l₂.map Prod.fst) := by
    have whole := listing.ring
    rwa [map_append, map_cons] at whole
  refine ⟨⟨?_, ?_⟩, ?_⟩
  · rw [map_append]
    exact ring.del
  · intro e member
    refine listing.stored e ?_
    simp only [mem_append, mem_cons] at member ⊢
    tauto
  · have nodup := (nodup_cons.mp ring.nodup).2
    rw [map_append]
    exact (nodup_cons.mp (nodup_middle.mp nodup)).1

end Listings

theorem perm_map_insert {β : Type u} {γ : Type v} (f : β → γ) (l₁ l₂ : List β) (x : β)
    (others : List γ) :
    ((l₁ ++ x :: l₂).map f ++ others).Perm (f x :: ((l₁ ++ l₂).map f ++ others)) := by
  simp only [map_append, map_cons, append_assoc, cons_append]
  exact perm_middle

/-- **Insertion keeps a list sorted**, when the new entry may stand behind those that are
passed and in front of those at which the search would stop. -/
theorem pairwise_insert {β : Type v} {before : β → β → Prop} {stops : β → Bool} {x : β}
    (trans : ∀ a b c, before a b → before b c → before a c) {l : List β}
    (sorted : l.Pairwise before) (passed : ∀ a ∈ l, stops a = false → before a x)
    (stopped : ∀ a ∈ l, stops a = true → before x a) :
    ((l.takeWhile fun a => !stops a) ++ x :: l.dropWhile fun a => !stops a).Pairwise before := by
  induction l with
  | nil => simp
  | cons a l ih =>
    obtain ⟨first, rest⟩ := pairwise_cons.mp sorted
    cases decided : stops a with
    | true =>
      have front := stopped a mem_cons_self decided
      simp only [decided, Bool.not_true, Bool.false_eq_true, not_false_eq_true,
        takeWhile_cons_of_neg, dropWhile_cons_of_neg, nil_append]
      refine pairwise_cons.mpr ⟨fun b member => ?_, sorted⟩
      rcases mem_cons.mp member with rfl | behind
      · exact front
      · exact trans x a b front (first b behind)
    | false =>
      have tail := ih rest (fun b member => passed b (mem_cons_of_mem _ member))
        (fun b member => stopped b (mem_cons_of_mem _ member))
      simp only [decided, Bool.not_false, takeWhile_cons_of_pos,
        dropWhile_cons_of_pos, cons_append]
      refine pairwise_cons.mpr ⟨fun b member => ?_, tail⟩
      have cases : b = x ∨ b ∈ l := by
        rw [mem_append, mem_cons] at member
        rcases member with passed | rfl | behind
        · exact .inr ((takeWhile_sublist _).subset passed)
        · exact .inl rfl
        · exact .inr ((dropWhile_sublist _).subset behind)
      rcases cases with rfl | inside
      · exact passed a mem_cons_self decided
      · exact first b inside

end Dlist
