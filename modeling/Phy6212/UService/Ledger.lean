import Phy6212.Runs.Trace
import Phy6212.UService.Rpc

/-!
# Who holds which buffer

The account of the buffers without the program. A buffer on the list waits for one side only: the
other has called `rpc_deinit` and does not hold it any more (`Ledger.waits`).
-/

namespace Phy6212.UService

open List Pointers Runs

theorem Side.eq_of_ne {first second side : Side} (h : first ≠ side) (h' : second ≠ side) :
    first = second := by
  cases first <;> cases second <;> cases side <;> simp_all

/-- Every buffer in the trace is freed after both sides have called `rpc_deinit` on it. -/
def FreedAfterBoth (trace : List Note) : Prop :=
  ∀ p before after, trace = before ++ .freed p :: after → ∀ side, .deinit side p ∈ before

structure Ledger (heap : Heap RpcBuffer) (cache : List Ptr) (trace : List Note)
    (holds : Side → Ptr → Prop) : Prop where
  held : ∀ side p, holds side p → heap.Live p
  cached : ∀ p ∈ cache, heap.Live p
  nodup : cache.Nodup
  waits : ∀ p ∈ cache, ∃ side, .deinit side p ∈ trace ∧ ¬ holds side p
  spent : ∀ p, .freed p ∈ trace → heap.Spent p
  once : ∀ p, trace.count (.freed p) ≤ 1
  afterBoth : FreedAfterBoth trace

structure SameLive (heap next : Heap RpcBuffer) : Prop where
  live : ∀ q, next.Live q ↔ heap.Live q
  spent : ∀ q, heap.Spent q → next.Spent q

structure Gains (heap next : Heap RpcBuffer) (p : Ptr) : Prop where
  fresh : ¬ heap.Live p
  live : ∀ q, next.Live q ↔ q = p ∨ heap.Live q
  spent : ∀ q, heap.Spent q → next.Spent q

variable {heap next : Heap RpcBuffer} {p : Ptr} {b : RpcBuffer}

theorem SameLive.refl : SameLive heap heap := ⟨fun _ => Iff.rfl, fun _ spent => spent⟩

theorem sameLive_write : SameLive heap (heap.write p b) :=
  ⟨fun _ => Heap.live_write, fun _ spent => spent.write⟩

theorem gains_alloc {addr : Nat} (got : heap.alloc addr b = some (p, next)) : Gains heap next p :=
  ⟨Heap.not_live_of_alloc got, fun _ => Heap.live_alloc got, fun _ spent => spent.alloc got⟩

theorem Gains.same {last : Heap RpcBuffer} (gains : Gains heap next p)
    (same : SameLive next last) : Gains heap last p :=
  ⟨gains.fresh, fun q => (same.live q).trans (gains.live q),
    fun q spent => same.spent q (gains.spent q spent)⟩

variable {trace : List Note}

theorem freedAfterBoth_deinit {side : Side} (afterBoth : FreedAfterBoth trace) :
    FreedAfterBoth (trace ++ [.deinit side p]) := by
  intro q before after split
  rcases append_singleton_eq split with ⟨-, note⟩ | ⟨rest, earlier⟩
  · cases note
  · exact afterBoth q before rest earlier

theorem freedAfterBoth_freed (afterBoth : FreedAfterBoth trace)
    (both : ∀ side, .deinit side p ∈ trace) : FreedAfterBoth (trace ++ [.freed p]) := by
  intro q before after split
  rcases append_singleton_eq split with ⟨rfl, note⟩ | ⟨rest, earlier⟩
  · cases note
    exact both
  · exact afterBoth q before rest earlier

namespace Ledger

variable {cache : List Ptr} {holds holds' : Side → Ptr → Prop} {side : Side}

theorem empty : Ledger Heap.empty [] [] (fun _ _ => False) where
  held := by
    intro side p held
    cases held
  cached := by
    intro p member
    cases member
  nodup := nodup_nil
  waits := by
    intro p member
    cases member
  spent := by
    intro p member
    cases member
  once := by
    intro p
    exact Nat.zero_le 1
  afterBoth := by
    intro p before after split
    exact absurd split (by simp)

section

variable (ledger : Ledger heap cache trace holds)

include ledger

/-- The holders change, but nobody gets a buffer that is not allocated or is on the list. -/
theorem holders (lives : ∀ q, heap.Live q → next.Live q) (spent : ∀ q, heap.Spent q → next.Spent q)
    (new : ∀ side q, holds' side q → holds side q ∨ next.Live q ∧ q ∉ cache) :
    Ledger next cache trace holds' where
  held := by
    intro side q held
    rcases new side q held with old | ⟨live, -⟩
    · exact lives q (ledger.held side q old)
    · exact live
  cached := by
    intro q member
    exact lives q (ledger.cached q member)
  nodup := ledger.nodup
  waits := by
    intro q member
    obtain ⟨side, done, lets⟩ := ledger.waits q member
    refine ⟨side, done, ?_⟩
    intro held
    rcases new side q held with old | ⟨-, unlisted⟩
    · exact lets old
    · exact unlisted member
  spent := by
    intro q member
    exact spent q (ledger.spent q member)
  once := ledger.once
  afterBoth := ledger.afterBoth

theorem keep (same : SameLive heap next) (fewer : ∀ side p, holds' side p → holds side p) :
    Ledger next cache trace holds' :=
  ledger.holders (fun q => (same.live q).mpr) same.spent
    fun side q held => .inl (fewer side q held)

theorem gain (gains : Gains heap next p) (more : ∀ side q, holds' side q → q = p ∨ holds side q) :
    Ledger next cache trace holds' := by
  refine ledger.holders (fun q live => (gains.live q).mpr (.inr live)) gains.spent ?_
  intro side q held
  rcases more side q held with rfl | old
  · exact .inr ⟨(gains.live q).mpr (.inl rfl), fun listed => gains.fresh (ledger.cached q listed)⟩
  · exact .inl old

theorem share (sender : Side) (mine : holds sender p) (unlisted : p ∉ cache)
    (more : ∀ side q, holds' side q → q = p ∨ holds side q) : Ledger heap cache trace holds' := by
  refine ledger.holders (fun _ => id) (fun _ => id) ?_
  intro side q held
  rcases more side q held with rfl | old
  · exact .inr ⟨ledger.held sender q mine, unlisted⟩
  · exact .inl old

theorem list (mine : holds side p)
    (unlisted : p ∉ cache) (fewer : ∀ side q, holds' side q → holds side q)
    (dropped : ¬ holds' side p) :
    Ledger heap (cache ++ [p]) (trace ++ [.deinit side p]) holds' where
  held := by
    intro other q held
    exact ledger.held other q (fewer other q held)
  cached := by
    intro q member
    rcases mem_append.mp member with old | new
    · exact ledger.cached q old
    · rw [mem_singleton.mp new]
      exact ledger.held side p mine
  nodup := by
    refine nodup_append.mpr ⟨ledger.nodup, by simp, ?_⟩
    rintro q old _ new rfl
    exact unlisted (mem_singleton.mp new ▸ old)
  waits := by
    intro q member
    rcases mem_append.mp member with old | new
    · obtain ⟨other, done, lets⟩ := ledger.waits q old
      exact ⟨other, mem_append_left _ done, fun held => lets (fewer other q held)⟩
    · rw [mem_singleton.mp new]
      exact ⟨side, by simp, dropped⟩
  spent := by
    intro q member
    exact ledger.spent q (by simpa using member)
  once := by
    intro q
    simpa [count_append] using ledger.once q
  afterBoth := freedAfterBoth_deinit ledger.afterBoth

theorem freeCached (mine : holds side p)
    (listed : p ∈ cache) (fewer : ∀ side q, holds' side q → holds side q)
    (dropped : ¬ holds' side p) :
    Ledger (heap.free p) (cache.erase p) (trace ++ [.deinit side p, .freed p]) holds' := by
  have live := ledger.cached p listed
  obtain ⟨first, done, lets⟩ := ledger.waits p listed
  have different : first ≠ side := fun same => lets (same ▸ mine)
  have both : ∀ other, .deinit other p ∈ trace ++ [.deinit side p] := by
    intro other
    by_cases same : other = side
    · subst same
      simp
    · rw [Side.eq_of_ne same different]
      exact mem_append_left _ done
  have unheld : ∀ other, ¬ holds' other p := by
    intro other held
    by_cases same : other = side
    · exact dropped (same ▸ held)
    · exact lets (Side.eq_of_ne same different ▸ fewer other p held)
  exact {
    held := by
      intro other q held
      refine (Heap.live_free live).mpr ⟨ledger.held other q (fewer other q held), ?_⟩
      rintro rfl
      exact unheld other held
    cached := by
      intro q member
      obtain ⟨different, old⟩ := (List.Nodup.mem_erase_iff ledger.nodup).mp member
      exact (Heap.live_free live).mpr ⟨ledger.cached q old, different⟩
    nodup := ledger.nodup.erase p
    waits := by
      intro q member
      obtain ⟨other, done, lets⟩ := ledger.waits q (mem_of_mem_erase member)
      exact ⟨other, mem_append_left _ done, fun held => lets (fewer other q held)⟩
    spent := by
      intro q member
      rcases mem_append.mp member with old | new
      · exact (ledger.spent q old).free live
      · have same : q = p := by simpa using new
        rw [same]
        exact Heap.spent_of_free live
    once := by
      intro q
      by_cases same : q = p
      · subst same
        have never : .freed q ∉ trace := fun member => (ledger.spent q member).2 live
        simp [count_append, count_eq_zero_of_not_mem never]
      · have other : Note.freed p ≠ Note.freed q := fun note => same (Note.freed.inj note).symm
        simpa [count_append, count_cons, other] using ledger.once q
    afterBoth := by
      have split : trace ++ [Note.deinit side p, Note.freed p]
          = trace ++ [.deinit side p] ++ [.freed p] := by simp
      rw [split]
      exact freedAfterBoth_freed (freedAfterBoth_deinit ledger.afterBoth) both }

end

end Ledger

end Phy6212.UService
