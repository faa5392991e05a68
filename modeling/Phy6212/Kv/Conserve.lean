import Phy6212.Kv.BlockRun
import Phy6212.Kv.Session
import Mathlib.Algebra.BigOperators.Group.Finset.Piecewise

/-!
# Garbage collection keeps every pair

For any store whose blocks hold logs that agree with their records, with an erased block kept free
(`Collectable`), a collection ends, and what an iteration reads afterwards is a permutation of what
it read before (`kvGc_conserves`).
-/

namespace Phy6212.Kv

open Function List NorFlash

def blockPairs (kv : Kvset) (i : Nat) : Except Halt (List (List UInt8 × List UInt8)) := do
  let nodes ← BlockRun.liveNodes i kv
  .ok (nodes.map fun node => ((BlockRun.itemOf i kv node).key, (BlockRun.itemOf i kv node).value))

def livePairs (kv : Kvset) : Nat → Except Halt (List (List UInt8 × List UInt8))
  | 0 => .ok []
  | n + 1 => do
      let pairs ← livePairs kv n
      let more ← blockPairs kv n
      .ok (pairs ++ more)

def Entry.pair (e : Entry) : List UInt8 × List UInt8 := (e.key.bytes, e.value)

def logPairs (log : List Entry) : List (List UInt8 × List UInt8) := (liveLog log).map Entry.pair

def allPairs (logs : Nat → List Entry) (n : Nat) : List (List UInt8 × List UInt8) :=
  (range n).flatMap fun i => logPairs (logs i)

theorem allPairs_succ (logs : Nat → List Entry) (n : Nat) :
    allPairs logs (n + 1) = allPairs logs n ++ logPairs (logs n) := by
  simp [allPairs, range_succ]

variable {g : Geometry} {kv : Kvset} {logs : Nat → List Entry} {i : Nat}

theorem blockPairs_eq {size : Nat} {log : List Entry} (placed : Placed size kv i log) :
    blockPairs kv i = .ok (logPairs log) := by
  have items := BlockRun.nodesFrom_items log [] placed
  have pairs := congrArg (map fun item : BlockRun.Item => (item.key, item.value)) items
  rw [map_map, map_map] at pairs
  unfold blockPairs
  rw [BlockRun.liveNodes_eq placed]
  exact congrArg Except.ok pairs

theorem livePairs_eq (laid : LaidOut g kv logs) {n : Nat} (within : n ≤ g.num) :
    livePairs kv n = .ok (allPairs logs n) := by
  induction n with
  | zero => rfl
  | succ n before =>
    rw [livePairs, before (by omega), blockPairs_eq (laid.placed within), allPairs_succ]
    rfl

theorem livePairs_all (laid : LaidOut g kv logs) :
    livePairs kv kv.num = .ok (allPairs logs g.num) := by
  rw [laid.num]
  exact livePairs_eq laid (Nat.le_refl _)

theorem logPairs_append (first second : List Entry) :
    logPairs (first ++ second) = logPairs first ++ logPairs second := by
  rw [logPairs, liveLog_append, map_append]
  rfl

theorem logPairs_moved (log : List Entry) :
    logPairs ((liveLog log).map Entry.moved) = logPairs log := by
  have all_live : liveLog ((liveLog log).map Entry.moved) = (liveLog log).map Entry.moved := by
    apply filter_eq_self.mpr
    intro e member
    obtain ⟨e', -, rfl⟩ := mem_map.mp member
    exact e'.moved_live
  rw [logPairs, all_live, map_map]
  rfl

theorem allPairs_sum (logs : Nat → List Entry) (n : Nat) :
    (allPairs logs n : Multiset (List UInt8 × List UInt8)) =
      ∑ i ∈ Finset.range n, (logPairs (logs i) : Multiset (List UInt8 × List UInt8)) := by
  induction n with
  | zero => rfl
  | succ n before =>
    rw [Finset.sum_range_succ, ← before, allPairs_succ, Multiset.coe_add]

variable {num gc : Nat}

theorem sum_moved {M : Type} [AddCommMonoid M] {s : Finset Nat} (f : Nat → M) (iMem : i ∈ s)
    (gcMem : gc ∈ s) (apart : i ≠ gc) :
    ∑ x ∈ s, update (update f gc (f gc + f i)) i 0 x = ∑ x ∈ s, f x := by
  have rest : gc ∈ s.erase i := Finset.mem_erase.mpr ⟨apart.symm, gcMem⟩
  rw [Finset.sum_update_of_mem iMem, Finset.sdiff_singleton_eq_erase, zero_add,
    Finset.sum_update_of_mem rest, Finset.sdiff_singleton_eq_erase,
    ← Finset.add_sum_erase s f iMem, ← Finset.add_sum_erase _ f rest, add_comm (f gc), add_assoc]

theorem moveBlock_pairs (within : i < num) (gcWithin : gc < num) (apart : i ≠ gc) :
    (allPairs (moveBlock gc logs i) num).Perm (allPairs logs num) := by
  have moved : (fun j => (logPairs (moveBlock gc logs i j) : Multiset (List UInt8 × List UInt8))) =
      update (update (fun j => (logPairs (logs j) : Multiset _)) gc
        ((logPairs (logs gc) : Multiset _) + (logPairs (logs i) : Multiset _))) i 0 := by
    funext j
    by_cases here : j = i
    · subst here
      rw [moveBlock_self, update_self]
      rfl
    rw [update_of_ne here]
    by_cases target : j = gc
    · subst target
      rw [moveBlock_target apart, update_self, logPairs_append, logPairs_moved,
        Multiset.coe_add]
    · rw [moveBlock_ne target here, update_of_ne target]
  rw [← Multiset.coe_eq_coe, allPairs_sum, allPairs_sum, moved]
  exact sum_moved _ (Finset.mem_range.mpr within) (Finset.mem_range.mpr gcWithin) apart

theorem foldl_moveBlock_pairs (gcWithin : gc < num) (plan : List Nat)
    (others : ∀ i ∈ plan, i < num ∧ i ≠ gc) :
    (allPairs (plan.foldl (moveBlock gc) logs) num).Perm (allPairs logs num) := by
  induction plan generalizing logs with
  | nil => exact .refl _
  | cons i plan rest =>
    have first := others i mem_cons_self
    exact (rest fun j member => others j (mem_cons_of_mem _ member)).trans
      (moveBlock_pairs first.1 gcWithin first.2)

variable (plan : List Nat)

theorem foldl_moveBlock_target (others : ∀ i ∈ plan, i ≠ gc) :
    logPairs (logs gc) ⊆ logPairs (plan.foldl (moveBlock gc) logs gc) := by
  induction plan generalizing logs with
  | nil => exact fun _ member => member
  | cons i plan rest =>
    have first := others i mem_cons_self
    refine List.Subset.trans ?_ (rest fun j member => others j (mem_cons_of_mem _ member))
    rw [moveBlock_target first, logPairs_append]
    exact subset_append_left _ _

theorem foldl_moveBlock_empty (apart : i ≠ gc) (empty : logs i = []) :
    plan.foldl (moveBlock gc) logs i = [] := by
  induction plan generalizing logs with
  | nil => exact empty
  | cons j plan rest =>
    apply rest
    by_cases same : i = j
    · rw [same, moveBlock_self]
    · rw [moveBlock_ne apart same, empty]

theorem foldl_moveBlock_mem (others : ∀ i ∈ plan, i ≠ gc) (planned : i ∈ plan) :
    plan.foldl (moveBlock gc) logs i = [] ∧
      logPairs (logs i) ⊆ logPairs (plan.foldl (moveBlock gc) logs gc) := by
  induction plan generalizing logs with
  | nil => exact absurd planned not_mem_nil
  | cons j plan rest =>
    have others' : ∀ i ∈ plan, i ≠ gc := fun i member => others i (mem_cons_of_mem _ member)
    have first := others j mem_cons_self
    by_cases same : i = j
    · subst same
      refine ⟨foldl_moveBlock_empty plan first (moveBlock_self logs i), ?_⟩
      refine List.Subset.trans ?_ (foldl_moveBlock_target plan others')
      rw [moveBlock_target first, logPairs_append, logPairs_moved]
      exact subset_append_right _ _
    have later := (mem_cons.mp planned).resolve_left same
    have kept : moveBlock gc logs j i = logs i := moveBlock_ne (others i planned) same
    rw [← kept]
    exact rest others' later

/-- The blocks hold logs that their records agree with, and the block kept free is
erased. -/
def Collectable (g : Geometry) (kv : Kvset) (gc : Nat) : Prop :=
  ∃ logs, LaidOut g kv logs ∧ kv.gcBid = some gc ∧ gc < g.num ∧ logs gc = []

/-- Block `i` had live nodes, is erased now, and its pairs are in block `gc`. -/
def EmptiedInto (g : Geometry) (gc : Nat) (kv kv' : Kvset) (i : Nat) : Prop :=
  i < g.num ∧ i ≠ gc ∧ ∃ pairs target, blockPairs kv i = .ok pairs ∧ pairs ≠ [] ∧
    kv'.blocks i = cellRecord g.size i [] ∧ (∀ o < g.size, kv'.flash (i * g.size + o) = blank) ∧
    blockPairs kv' gc = .ok target ∧ pairs ⊆ target

theorem keeps_carries (g : Geometry) (gc : Nat) (kv₀ : Kvset) :
    Carries g gc fun kv _ => Keeps kv₀ kv := by
  intro i before e after kv logs kv₁ kv' _ _ _ _ keeps copied
  exact keeps.trans (copied.copy.keeps.trans copied.remove.keeps)

theorem planOf_head {first : Nat} {rest : List Nat} (plan : planOf g logs gc = first :: rest) :
    logPairs (logs first) ≠ [] := by
  unfold planOf collectPlan at plan
  cases chosen : leastUsed g.num gc _ _ with
  | none =>
    rw [chosen] at plan
    exact absurd plan.symm (cons_ne_nil _ _)
  | some i =>
    rw [chosen] at plan
    obtain rfl := (List.cons.inj plan).1
    have used := (leastUsed_some chosen).2.2.1
    intro none_live
    have empty : liveLog _ = [] := map_eq_nil_iff.mp none_live
    rw [usedSize, empty] at used
    exact absurd used (Nat.lt_irrefl _)

variable {kv' : Kvset}

theorem collect_collectable (laid : LaidOut g kv' (collect g logs gc)) (gcWithin : gc < g.num)
    (empty : logs gc = []) (gcBid : kv'.gcBid = (planOf g logs gc).getLast?.or (some gc)) :
    ∃ gc', Collectable g kv' gc' := by
  cases last : (planOf g logs gc).getLast? with
  | none =>
    rw [last, Option.none_or] at gcBid
    refine ⟨gc, collect g logs gc, laid, gcBid, gcWithin, ?_⟩
    rw [collect, getLast?_eq_none_iff.mp last]
    exact empty
  | some i =>
    rw [last, Option.some_or] at gcBid
    have planned : i ∈ planOf g logs gc := mem_of_getLast? last
    refine ⟨i, collect g logs gc, laid, gcBid, (collectPlan_mem planned).1, ?_⟩
    exact (foldl_moveBlock_mem _ (fun j member => (collectPlan_mem member).2) planned).1

theorem planOf_emptied (laid : LaidOut g kv logs) (laid' : LaidOut g kv' (collect g logs gc))
    (gcWithin : gc < g.num) : planOf g logs gc ≠ [] ↔ ∃ i, EmptiedInto g gc kv kv' i := by
  constructor
  · intro some_planned
    obtain ⟨i, rest, plan⟩ := exists_cons_of_ne_nil some_planned
    have planned : i ∈ planOf g logs gc := plan ▸ mem_cons_self
    obtain ⟨within, apart⟩ := collectPlan_mem planned
    obtain ⟨emptied, moved⟩ : collect g logs gc i = [] ∧ logPairs _ ⊆ logPairs _ :=
      foldl_moveBlock_mem _ (fun j member => (collectPlan_mem member).2) planned
    have cell := laid'.cell i within
    have record := laid'.record i within
    rw [emptied] at cell record
    exact ⟨i, within, apart, _, _, blockPairs_eq (laid.placed within), planOf_head plan, record,
      fun o high => cell.erased o (Nat.zero_le o) high, blockPairs_eq (laid'.placed gcWithin), moved⟩
  rintro ⟨i, within, -, pairs, -, read, some_live, record, -⟩ none_planned
  -- nothing was moved, so the live nodes of the block are still counted
  have same : collect g logs gc = logs := by
    rw [collect, none_planned]
    rfl
  rw [blockPairs_eq (laid.placed within), Except.ok.injEq] at read
  have counted := congrArg Kvblock.count (record.symm.trans (laid'.record i within))
  rw [same] at counted
  have empty : liveLog _ = [] := eq_nil_of_length_eq_zero counted.symm
  apply some_live
  rw [← read, logPairs, empty]
  rfl

/-- **A garbage collection ends and keeps every pair.** -/
theorem kvGc_conserves (env : Env) (collectable : Collectable g kv gc) :
    ∃ emptied kv', kvGc env kv = .ok (emptied, kv') ∧
      (∃ before after, livePairs kv kv.num = .ok before ∧ livePairs kv' kv'.num = .ok after ∧
        after.Perm before) ∧
      (∃ gc', Collectable g kv' gc') ∧
      (emptied = true ↔ ∃ i, EmptiedInto g gc kv kv' i) := by
  obtain ⟨logs, laid, gcBid, gcWithin, gcEmpty⟩ := collectable
  obtain ⟨kv₁, run, laid₁, keeps⟩ := kvGc_laid env laid (keeps_carries g gc kv) ⟨rfl, rfl, rfl⟩
    gcWithin gcBid
  have laid' : LaidOut g { kv₁ with gcBid := (planOf g logs gc).getLast?.or kv₁.gcBid }
      _ := { laid₁ with }
  refine ⟨_, _, run, ⟨allPairs logs g.num, allPairs (collect g logs gc) g.num, ?_, ?_, ?_⟩, ?_, ?_⟩
  · exact livePairs_all laid
  · exact livePairs_all laid'
  · exact foldl_moveBlock_pairs gcWithin _ fun i => collectPlan_mem
  · refine collect_collectable laid' gcWithin gcEmpty ?_
    rw [keeps.gcBid, gcBid]
  · rw [← planOf_emptied laid laid' gcWithin]
    simp

def twoErased : Kvset where
  flash := fun _ => blank
  trace := []
  num := 2
  blocks := fun i => cellRecord 512 i []
  bid := 0
  gcBid := some 1
  cache := []

theorem twoErased_laid : LaidOut twoBlocks twoErased fun _ => [] := by
  refine ⟨rfl, fun _ _ => rfl, fun i _ => ⟨trivial, fun _ _ _ => rfl, ?_⟩⟩
  decide

theorem kvGc_conserves_one :
    ∃ kv, Collectable twoBlocks kv 1 ∧ ∃ emptied kv', kvGc plenty kv = .ok (emptied, kv') ∧
      (∃ before after, livePairs kv kv.num = .ok before ∧ livePairs kv' kv'.num = .ok after ∧
        after.Perm before) ∧
      (∃ gc', Collectable twoBlocks kv' gc') ∧
      (emptied = true ↔ ∃ i, EmptiedInto twoBlocks 1 kv kv' i) := by
  obtain ⟨kv, -, laid, one⟩ := twoErased_laid.set (show 0 < twoBlocks.num by decide) plenty
    (e := ⟨keyA, [1], 1, true, by decide⟩) rfl (show 1 = UInt8.ofNat (1 &&& 0xFF) from rfl)
    (by decide)
  have collectable : Collectable twoBlocks kv 1 := ⟨_, laid, one.gcBid, by decide, rfl⟩
  exact ⟨kv, collectable, kvGc_conserves plenty collectable⟩

end Phy6212.Kv
