import Phy6212.Kv.Set
import Mathlib.Data.Finset.Card

/-!
# Garbage collection

`kv_gc` moves the live nodes of whole blocks into the block kept free (`moveBlock`), in an order
that depends only on the sizes (`collectPlan`).
-/

namespace Phy6212.Kv

open Function List NorFlash

def Entry.moved (e : Entry) : Entry :=
  { e with version := versionByte (nextVersion e.version), live := true }

variable (e : Entry)

@[simp] theorem Entry.moved_size : e.moved.size = e.size := rfl
@[simp] theorem Entry.moved_live : e.moved.live = true := rfl
@[simp] theorem Entry.moved_key : e.moved.key = e.key := rfl
@[simp] theorem Entry.moved_value : e.moved.value = e.value := rfl

/-- The logs after the live entries of block `i` were moved into block `gc`. -/
def moveBlock (gc : Nat) (logs : Nat → List Entry) (i : Nat) : Nat → List Entry :=
  update (update logs gc (logs gc ++ (liveLog (logs i)).map Entry.moved)) i []

structure Keeps (kv kv' : Kvset) : Prop where
  bid : kv'.bid = kv.bid
  gcBid : kv'.gcBid = kv.gcBid
  cache : kv'.cache = kv.cache

variable {kv : Kvset} (env : Env)

theorem OneOp.keeps {kv' : Kvset} (one : OneOp kv kv') : Keeps kv kv' :=
  { one with }

theorem Keeps.trans {kv' kv'' : Kvset} (first : Keeps kv kv') (second : Keeps kv' kv'') :
    Keeps kv kv'' :=
  ⟨second.bid.trans first.bid, second.gcBid.trans first.gcBid, second.cache.trans first.cache⟩

/-- One node was moved: its copy was written into block `gc`, then the original was
removed from block `i`. -/
structure Copied (g : Geometry) (gc i : Nat) (before : List Entry) (e : Entry) (after : List Entry)
    (kv : Kvset) (logs : Nat → List Entry) (kv₁ kv' : Kvset) : Prop where
  copied : LaidOut g kv₁ (update logs gc (logs gc ++ [e.moved]))
  copy : OneOp kv kv₁
  removed : LaidOut g kv' (update (update logs gc (logs gc ++ [e.moved])) i
    (removeEntry before e after))
  remove : OneOp kv₁ kv'

/-- What every move of a live node into block `gc` keeps. -/
def Carries (g : Geometry) (gc : Nat) (carried : Kvset → (Nat → List Entry) → Prop) : Prop :=
  ∀ ⦃i before e after kv logs kv₁ kv'⦄, i < g.num → i ≠ gc → e.live = true →
    logs i = before ++ e :: after → carried kv logs → Copied g gc i before e after kv logs kv₁ kv' →
      carried kv' (update (update logs gc (logs gc ++ [e.moved])) i
        (removeEntry before e after))

variable {g : Geometry} {gc i : Nat} {carried : Kvset → (Nat → List Entry) → Prop}
  {logs : Nat → List Entry}

theorem kvblockDeepGc_copied (laid : LaidOut g kv logs) (gcWithin : gc < g.num) (within : i < g.num)
    (apart : i ≠ gc) {before after : List Entry} {e : Entry} (live : e.live = true)
    (log_eq : logs i = before ++ e :: after) (room : logSize (logs gc) + e.size + 4 ≤ g.size) :
    ∃ kv₁ kv', kvblockDeepGc env gc (e.node i (logSize before)) kv () = .ok (0, kv', ()) ∧
      Copied g gc i before e after kv logs kv₁ kv' := by
  have lives : Lives g logs i _ e := ⟨within, live, before, after, log_eq, rfl⟩
  have key_eq := laid.readKey lives gcWithin
  have value_eq := laid.valueOf lives (Nat.le_refl _)
  rw [take_length] at value_eq
  obtain ⟨kv₁, set, laid₁, one⟩ := laid.set gcWithin env e.moved_live
    (show e.moved.version = versionByte _ from rfl) room
  have log_eq₁ : update logs gc (logs gc ++ [e.moved]) i = before ++ e :: after := by
    rw [update_of_ne apart, log_eq]
  obtain ⟨laid₂, one₂⟩ := laid₁.rm within live log_eq₁
  refine ⟨kv₁, kvnodeRm kv₁ _, ?_, laid₁, one, laid₂, one₂⟩
  have version_eq : (if (e.node i (logSize before)).version = 255 then 1
      else (e.node i (logSize before)).version.toNat + 1) = nextVersion e.version := by
    unfold nextVersion
    show (if e.version = 255 then 1 else e.version.toNat + 1) = _
    split <;> simp
  have size_eq : (e.node i (logSize before)).valSize = e.value.length := rfl
  unfold kvblockDeepGc
  rw [if_pos (show (e.node i _).rw = true from rfl)]
  simp only [version_eq, key_eq, size_eq, value_eq]
  rw [show kvblockSet env kv gc e.key.bytes e.value _ = _ from set]

theorem deepGc_loop (env : Env) (gcWithin : gc < g.num) (carries : Carries g gc carried)
    (within : i < g.num) (apart : i ≠ gc) :
    ∀ (after before : List Entry) (rounds : Nat) (kv : Kvset) (logs : Nat → List Entry),
      LaidOut g kv logs → carried kv logs → logs i = before ++ after →
      liveLog after ≠ [] → after.length < rounds →
      logSize (logs gc) + logSize (liveLog after) + 4 ≤ g.size →
      liveLog before = [] →
      ∃ kv', iterLoop i false (kvblockDeepGc env gc) rounds (logSize before) kv () =
          .ok (0, kv', ()) ∧
        LaidOut g kv' (update (update logs gc
          (logs gc ++ (liveLog after).map Entry.moved)) i []) ∧
        carried kv' (update (update logs gc
          (logs gc ++ (liveLog after).map Entry.moved)) i [])
  | _, _, 0, _, _, _, _, _, _, enough, _, _ => by simp at enough
  | [], _, _ + 1, _, _, _, _, _, nonempty, _, _, _ => absurd rfl nonempty
  | e :: after, before, rounds + 1, kv, logs, laid, has, log_eq, nonempty, enough, room, dead => by
    have placed := laid.placed_split within log_eq
    simp only [length_cons, Nat.add_lt_add_iff_right] at enough
    cases live : e.live with
    | false =>
      rw [liveLog_cons_dead after live] at nonempty room ⊢
      rw [iterLoop_skip placed live]
      refine deepGc_loop env gcWithin carries within apart after _ rounds kv logs
        laid has (by rw [log_eq]; simp) nonempty enough room ?_
      rw [liveLog_append, dead, liveLog_cons_dead [] live]
      rfl
    | true =>
      rw [liveLog_cons_live after live, logSize_cons] at room
      obtain ⟨kv₀, kv₁, moved, copied⟩ := kvblockDeepGc_copied env laid gcWithin within
        apart live log_eq (by omega)
      have laid₁ := copied.removed
      have has₁ := carries within apart live log_eq has copied
      rw [iterLoop_next placed (by simp [live]) moved, liveLog_cons_live after live]
      by_cases last : liveLog after = []
      · -- the last live node: the block was erased, and the loop ends
        have emptied : removeEntry before e after = [] := by
          unfold removeEntry
          rw [if_neg (by rw [liveLog_split live, dead, last]; simp)]
        rw [emptied] at laid₁ has₁
        obtain ⟨rounds, rfl⟩ : ∃ r, rounds = r + 1 := ⟨rounds - 1, by omega⟩
        have placed₁ : Placed g.size kv₁ i [] :=
          laid₁.placed_split within (update_self ..)
        refine ⟨kv₁, iterLoop_end placed₁ (Nat.zero_le _) rounds, ?_⟩
        rw [last]
        exact ⟨laid₁, has₁⟩
      have killed : removeEntry before e after = before ++ e.kill :: after := by
        unfold removeEntry
        rw [if_pos]
        rw [liveLog_split live, length_append, length_cons]
        have := length_pos_of_ne_nil last
        omega
      rw [killed] at laid₁ has₁
      have log_eq₁ : update (update logs gc (logs gc ++ [e.moved])) i
          (before ++ e.kill :: after) i = before ++ [e.kill] ++ after := by
        simp
      have gc_eq : update (update logs gc (logs gc ++ [e.moved])) i
          (before ++ e.kill :: after) gc = logs gc ++ [e.moved] := by
        rw [update_of_ne apart.symm, update_self]
      obtain ⟨kv', loop, rest⟩ := deepGc_loop env gcWithin carries within apart after
        _ rounds kv₁ _ laid₁ has₁ log_eq₁ last
        enough (by rw [gc_eq]; simp only [logSize_append, logSize_cons, logSize_nil,
          Entry.moved_size]; omega) (by
          rw [liveLog_append, dead, liveLog_cons_dead [] e.kill_live]; rfl)
      refine ⟨kv', by rw [← loop]; simp, ?_⟩
      rw [gc_eq] at rest
      have same : update (update (update (update logs gc
          (logs gc ++ [e.moved])) i (before ++ e.kill :: after)) gc (logs gc ++ [e.moved] ++
            (liveLog after).map Entry.moved)) i [] = update (update logs gc
          (logs gc ++ (e :: liveLog after).map Entry.moved)) i [] := by
        rw [update_comm apart.symm, update_idem, update_comm apart,
          update_idem]
        simp
      rwa [same] at rest

def usedSize (logs : Nat → List Entry) (i : Nat) : Nat := logSize (liveLog (logs i))

theorem kvblockIter_deepGc (laid : LaidOut g kv logs) (carries : Carries g gc carried)
    (has : carried kv logs) (gcWithin : gc < g.num) (within : i < g.num) (apart : i ≠ gc)
    (some_live : 0 < usedSize logs i) (room : usedSize logs i < freeSize g logs gc) :
    ∃ kv', kvblockIter i false (kvblockDeepGc env gc) kv () = .ok (0, kv', ()) ∧
      LaidOut g kv' (moveBlock gc logs i) ∧ carried kv' (moveBlock gc logs i) := by
  have words := g.words
  have gcWords := logSize_mod (logs gc)
  have usedWords := logSize_mod (liveLog (logs i))
  unfold usedSize at some_live room
  unfold freeSize at room
  have nonempty : liveLog (logs i) ≠ [] := by
    intro empty
    rw [empty] at some_live
    exact absurd some_live (Nat.lt_irrefl _)
  exact deepGc_loop env gcWithin carries within apart _ [] _ kv logs laid has rfl
    nonempty (laid.placed within).rounds (by omega) rfl

/-! ## The order of the moves -/

def leastUsed (num gc : Nat) (used : Nat → Nat) (free : Nat) : Option Nat :=
  ((range num).foldl
    (fun (best : Nat × Option Nat) i =>
      if i ≠ gc ∧ 0 < used i ∧ used i < best.1 then (used i, some i) else best) (free, none)).2

/-- The blocks that are moved, computed from the used bytes of every block and the
free bytes of the target. -/
def collectPlan (num gc : Nat) : Nat → (Nat → Nat) → Nat → List Nat
  | 0, _, _ => []
  | rounds + 1, used, free =>
    match leastUsed num gc used free with
    | none => []
    | some i => i :: collectPlan num gc rounds (update used i 0) (free - used i)

variable {num free : Nat} {used : Nat → Nat}

theorem leastUsed_fold (used : Nat → Nat) (gc : Nat) : ∀ (l : List Nat) (best : Nat × Option Nat),
    (l.foldl (fun best i =>
      if i ≠ gc ∧ 0 < used i ∧ used i < best.1 then (used i, some i) else best) best = best) ∨
    ∃ i ∈ l, (i ≠ gc ∧ 0 < used i ∧ used i < best.1) ∧
      (l.foldl (fun best i =>
        if i ≠ gc ∧ 0 < used i ∧ used i < best.1 then (used i, some i) else best) best).2 = some i
  | [], best => .inl rfl
  | a :: l, best => by
    rw [foldl_cons]
    split
    · next better =>
      rcases leastUsed_fold used gc l (used a, some a) with same | ⟨i, member, chosen, eq⟩
      · rw [same]
        exact .inr ⟨a, mem_cons_self, better, rfl⟩
      · refine .inr ⟨i, mem_cons_of_mem _ member, ⟨chosen.1, chosen.2.1, ?_⟩, eq⟩
        exact Nat.lt_trans chosen.2.2 better.2.2
    · rcases leastUsed_fold used gc l best with same | ⟨i, member, chosen, eq⟩
      · exact .inl same
      · exact .inr ⟨i, mem_cons_of_mem _ member, chosen, eq⟩

theorem leastUsed_some (chosen : leastUsed num gc used free = some i) :
    i < num ∧ i ≠ gc ∧ 0 < used i ∧ used i < free := by
  unfold leastUsed at chosen
  rcases leastUsed_fold used gc _ (free, none) with same | ⟨i', member, rest, eq⟩
  · rw [same] at chosen
    exact absurd chosen.symm (Option.some_ne_none i)
  · rw [eq] at chosen
    obtain rfl := Option.some.inj chosen
    exact ⟨mem_range.mp member, rest⟩

variable {used' : Nat → Nat}

theorem leastUsed_congr (same : ∀ i < num, i ≠ gc → used i = used' i) :
    leastUsed num gc used free = leastUsed num gc used' free := by
  unfold leastUsed
  congr 1
  refine foldl_ext _ _ _ fun best i member => ?_
  by_cases target : i = gc
  · rw [if_neg (fun h => h.1 target), if_neg (fun h => h.1 target)]
  · rw [same i (mem_range.mp member) target]

theorem collectPlan_congr : ∀ (rounds : Nat) {used used' : Nat → Nat} {free : Nat},
    (∀ i < num, i ≠ gc → used i = used' i) →
      collectPlan num gc rounds used free = collectPlan num gc rounds used' free
  | 0, _, _, _, _ => rfl
  | rounds + 1, used, used', free, same => by
    unfold collectPlan
    rw [leastUsed_congr same]
    cases chosen : leastUsed num gc used' free with
    | none => rfl
    | some i =>
      obtain ⟨within, target, -⟩ := leastUsed_some chosen
      simp only
      rw [same i within target]
      congr 1
      refine collectPlan_congr rounds fun j jWithin other => ?_
      rcases eq_or_ne j i with rfl | different
      · rw [update_self, update_self]
      · rw [update_of_ne different, update_of_ne different,
          same j jWithin other]

theorem collectPlan_mem : ∀ {rounds : Nat} {used : Nat → Nat} {free i : Nat},
    i ∈ collectPlan num gc rounds used free → i < num ∧ i ≠ gc
  | 0, _, _, _, member => absurd member not_mem_nil
  | rounds + 1, used, free, i, member => by
    unfold collectPlan at member
    cases chosen : leastUsed num gc used free with
    | none =>
      rw [chosen] at member
      exact absurd member not_mem_nil
    | some j =>
      rw [chosen] at member
      have spec := leastUsed_some chosen
      rcases mem_cons.mp member with rfl | later
      · exact ⟨spec.1, spec.2.1⟩
      · exact collectPlan_mem later

def busy (num gc : Nat) (used : Nat → Nat) : Nat :=
  ((Finset.range num).filter fun i => i ≠ gc ∧ 0 < used i).card

theorem busy_le : busy num gc used ≤ num :=
  Nat.le_trans (Finset.card_filter_le _ _) (Nat.le_of_eq (Finset.card_range num))

theorem busy_lt (within : i < num) (apart : i ≠ gc) (some_used : 0 < used i) (emptied : used' i = 0)
    (others : ∀ j, j ≠ gc → j ≠ i → used' j = used j) : busy num gc used' < busy num gc used := by
  refine Finset.card_lt_card (Finset.ssubset_iff_of_subset ?_ |>.mpr ⟨i, ?_, ?_⟩)
  · intro j member
    simp only [Finset.mem_filter, Finset.mem_range] at member ⊢
    rcases eq_or_ne j i with rfl | different
    · exact ⟨member.1, apart, some_used⟩
    · rw [others j member.2.1 different] at member
      exact member
  · simp only [Finset.mem_filter, Finset.mem_range]
    exact ⟨within, apart, some_used⟩
  · simp only [Finset.mem_filter, emptied]
    omega

/-! ## The loop of the collection -/

theorem minUsed_eq (laid : LaidOut g kv logs) (gcWithin : gc < g.num) :
    minUsed kv gc = leastUsed g.num gc (usedSize logs) (freeSize g logs gc) := by
  unfold minUsed leastUsed
  rw [laid.num, laid.record gc gcWithin]
  congr 1
  refine foldl_ext _ _ _ fun best i member => ?_
  rw [laid.record i (mem_range.mp member)]
  simp only [cellRecord, true_and]
  rfl

theorem moveBlock_ne {j : Nat} (notTarget : j ≠ gc) (other : j ≠ i) :
    moveBlock gc logs i j = logs j := by
  unfold moveBlock
  rw [update_of_ne other, update_of_ne notTarget]

theorem moveBlock_self (logs : Nat → List Entry) (i : Nat) : moveBlock gc logs i i = [] :=
  update_self ..

theorem moveBlock_target (apart : i ≠ gc) :
    moveBlock gc logs i gc = logs gc ++ (liveLog (logs i)).map Entry.moved := by
  unfold moveBlock
  rw [update_of_ne apart.symm, update_self]

theorem logSize_map_moved (log : List Entry) : logSize (log.map Entry.moved) = logSize log := by
  induction log with
  | nil => rfl
  | cons e log ih => simp [ih]

theorem gcLoop_spec (env : Env) (gcWithin : gc < g.num) (carries : Carries g gc carried) :
    ∀ (rounds : Nat) (newGc : Option Nat) (kv : Kvset) (logs : Nat → List Entry),
      LaidOut g kv logs → carried kv logs → busy g.num gc (usedSize logs) < rounds →
      ∃ kv', gcLoop env gc rounds newGc kv =
          .ok ((collectPlan g.num gc rounds (usedSize logs) (freeSize g logs gc)).getLast?.or newGc,
            kv') ∧
        LaidOut g kv' ((collectPlan g.num gc rounds (usedSize logs)
          (freeSize g logs gc)).foldl (moveBlock gc) logs) ∧
        carried kv' ((collectPlan g.num gc rounds (usedSize logs)
          (freeSize g logs gc)).foldl (moveBlock gc) logs)
  | 0, _, _, _, _, _, enough => absurd enough (Nat.not_lt_zero _)
  | rounds + 1, newGc, kv, logs, laid, has, enough => by
    rw [gcLoop, collectPlan, minUsed_eq laid gcWithin]
    cases chosen : leastUsed g.num gc _ _ with
    | none => exact ⟨kv, rfl, laid, has⟩
    | some i =>
      obtain ⟨within, apart, some_used, fits⟩ := leastUsed_some chosen
      obtain ⟨kv₁, moved, laid₁, has₁⟩ := kvblockIter_deepGc env laid carries has gcWithin
        within apart some_used fits
      have used_eq : ∀ j, j ≠ gc →
          usedSize (moveBlock gc logs i) j = update (usedSize logs) i 0 j := by
        intro j notTarget
        rcases eq_or_ne j i with rfl | other
        · rw [update_self, usedSize, moveBlock_self]
          rfl
        · rw [update_of_ne other, usedSize, moveBlock_ne notTarget other]
          rfl
      have free_eq : freeSize g (moveBlock gc logs i) gc =
          freeSize g logs gc - usedSize logs i := by
        unfold freeSize usedSize
        rw [moveBlock_target apart, logSize_append, logSize_map_moved]
        omega
      have fewer : busy g.num gc (usedSize (moveBlock gc logs i)) < rounds := by
        refine Nat.lt_of_lt_of_le (busy_lt within apart some_used ?_ ?_) (by omega)
        · rw [used_eq i apart, update_self]
        · intro j notTarget other
          rw [used_eq j notTarget, update_of_ne other]
      obtain ⟨kv', loop, rest⟩ := gcLoop_spec env gcWithin carries rounds (some i) kv₁ _ laid₁
        has₁ fewer
      rw [free_eq, collectPlan_congr rounds fun j _ => used_eq j] at loop rest
      have emptied : (kv₁.blocks i).count = 0 := by
        rw [laid₁.record i within, moveBlock_self]
        rfl
      refine ⟨kv', ?_, ?_⟩
      · simp only [moved, bind, Except.bind, emptied, if_true, loop]
        simp [getLast?_cons, Option.or_some]
      · exact rest

def planOf (g : Geometry) (logs : Nat → List Entry) (gc : Nat) : List Nat :=
  collectPlan g.num gc (g.num + 1) (usedSize logs) (freeSize g logs gc)

def collect (g : Geometry) (logs : Nat → List Entry) (gc : Nat) : Nat → List Entry :=
  (planOf g logs gc).foldl (moveBlock gc) logs

theorem kvGc_laid (laid : LaidOut g kv logs) (carries : Carries g gc carried)
    (has : carried kv logs) (gcWithin : gc < g.num) (gcBid : kv.gcBid = some gc) :
    ∃ kv', kvGc env kv = .ok (!(planOf g logs gc).isEmpty,
        { kv' with gcBid := (planOf g logs gc).getLast?.or kv'.gcBid }) ∧
      LaidOut g kv' (collect g logs gc) ∧ carried kv' (collect g logs gc) := by
  obtain ⟨kv', loop, laid', has'⟩ := gcLoop_spec env gcWithin carries _ none kv logs
    laid has (Nat.lt_succ_of_le busy_le)
  refine ⟨kv', ?_, laid', has'⟩
  unfold kvGc
  rw [gcBid, laid.num]
  simp only [bind, Except.bind, loop]
  change _ = Except.ok (!(collectPlan g.num gc _ _
    _).isEmpty, { kv' with gcBid := (collectPlan g.num gc _
      _ (freeSize g logs gc)).getLast?.or kv'.gcBid })
  cases plan : collectPlan g.num gc _ _ _ with
  | nil => rfl
  | cons first rest => rfl

/-! ## The contents of the store -/

/-- The store went from logs to logs without a change of the contents, at any
power cut either. -/
structure Moves (g : Geometry) (map : Key → Option (List UInt8)) (kv : Kvset) (kv' : Kvset)
    (logs' : Nat → List Entry) : Prop where
  rep : Rep g kv' logs'
  unique : Unique g logs'
  contents : Contents g logs' map
  evolves : Evolves g (fun l => Recovers g l map) kv kv'
  keeps : Keeps kv kv'

variable {map : Key → Option (List UInt8)}

theorem moves_carries (kv₀ : Kvset) (gcWithin : gc < g.num) : Carries g gc (Moves g map kv₀) := by
  intro i before e after kv logs kv₁ kv' within apart live log_eq moves copied
  have lives : Lives g logs i _ e := ⟨within, live, before, after, log_eq, rfl⟩
  have log_eq₁ : update logs gc (logs gc ++ [e.moved]) i = before ++ e :: after := by
    rw [update_of_ne apart, log_eq]
  have settled₁ : Settled g (update logs gc (logs gc ++ [e.moved])) :=
    moves.rep.settled.update (.inr (liveLog_append_live _ e.moved_live))
  have rep₁ := copied.copied.rep settled₁
  have rep₂ := copied.removed.rep (settled₁.update (settled_removeEntry live))
  have stored : map e.key = some e.value := moves.contents.of_lives lives
  have newer : ∀ i' off' x, Lives g logs i' off' x → x.key = e.moved.key →
      olderNode x.version e.moved.version = some .first := by
    intro i' off' x xLives same
    rw [(moves.unique.same xLives lives same).2.2]
    exact nextVersion_newer e.version
  have recovers := Recovers.append moves.unique moves.contents gcWithin e.moved_live newer
  have replaces := replaces_livesBut moves.unique gcWithin e.moved_live lives rfl
  have replaced : Replaces g logs gc e.moved (Lives g (update (update logs gc
      (logs gc ++ [e.moved])) i (removeEntry before e after))) := by
    intro i' off' x
    rw [lives_remove within live log_eq₁]
    exact replaces i' off' x
  have same : update map e.moved.key (some e.moved.value) = map := by
    rw [Entry.moved_key, Entry.moved_value, ← stored, update_eq_self]
  have contents' := replaced.contents moves.contents
  rw [same] at recovers contents'
  have start : Recovers g logs map := .inl ⟨moves.unique, moves.contents⟩
  have unique' := replaced.unique moves.unique
  have finish : Recovers g _ map := .inl ⟨unique', contents'⟩
  exact ⟨rep₂, unique', contents',
    moves.evolves.trans ((Evolves.step moves.rep rep₁ copied.copy start recovers).trans
      (Evolves.step rep₁ rep₂ copied.remove recovers finish)),
    moves.keeps.trans (copied.copy.keeps.trans copied.remove.keeps)⟩

theorem kvGc_spec (ready : Ready g kv logs) (unique : Unique g logs)
    (contents : Contents g logs map) (gcBid : kv.gcBid = some gc) :
    ∃ kv', kvGc env kv = .ok (!(planOf g logs gc).isEmpty, kv') ∧
      kv'.gcBid = some ((planOf g logs gc).getLast?.getD gc) ∧ kv'.bid = kv.bid ∧
      kv'.cache = kv.cache ∧ Ready g kv' (collect g logs gc) ∧ Unique g (collect g logs gc) ∧
      Contents g (collect g logs gc) map ∧ Evolves g (fun l => Recovers g l map) kv kv' := by
  obtain ⟨gc', gcWithin, equal⟩ := ready.gc
  rw [gcBid] at equal
  obtain rfl := Option.some.inj equal
  have start : Moves g map kv kv logs :=
    ⟨ready.rep, unique, contents, Evolves.still ready.rep (.inl ⟨unique, contents⟩) rfl rfl,
      ⟨rfl, rfl, rfl⟩⟩
  obtain ⟨kv', run, -, moves⟩ := kvGc_laid env ready.rep.laid (moves_carries kv gcWithin) start
    gcWithin gcBid
  have kept : (planOf g logs gc).getLast?.or kv'.gcBid =
      some ((planOf g logs gc).getLast?.getD gc) := by
    rw [moves.keeps.gcBid, gcBid]
    cases (planOf g logs gc).getLast? <;> rfl
  have target : (planOf g logs gc).getLast?.getD gc < g.num := by
    cases last : (planOf g logs gc).getLast? with
    | none => exact gcWithin
    | some i => exact (collectPlan_mem (mem_of_getLast? last)).1
  refine ⟨_, run, kept, moves.keeps.bid, moves.keeps.cache,
    ⟨⟨moves.rep.num, moves.rep.record, moves.rep.image⟩, ?_, _, target, kept⟩, moves.unique,
    moves.contents, moves.evolves⟩
  exact moves.keeps.bid ▸ ready.bid

end Phy6212.Kv
