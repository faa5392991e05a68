import Phy6212.Kv.Cache

/-!
# Finding a key by scanning the blocks

The first use of an iteration over the log of a block is the scan of all blocks that finds a key
without the cache (`kvFindScan_found`, `kvFindScan_missing`).
-/

namespace Phy6212.Kv

open List NorFlash

variable {g : Geometry} {kv : Kvset} {logs : Nat → List Entry} {i : Nat} {key : Key}

def BlockOutcome (g : Geometry) (logs : Nat → List Entry) (i : Nat) (key : Key)
    (found : Bool) (node : Kvnode) : Prop :=
  (found = true ∧ ∃ off e, Lives g logs i off e ∧ e.key = key ∧ node = e.node i off) ∨
    (found = false ∧ ∀ off e, Lives g logs i off e → e.key ≠ key)

theorem iterFind_loop (key : Key) (rep : Rep g kv logs) (within : i < g.num) :
    ∀ (after before : List Entry) (rounds : Nat) (n : FindNode), logs i = before ++ after →
      after.length < rounds → (∀ e ∈ before, e.live = true → e.key ≠ key) →
      n.count = (liveLog after).length → n.found = false →
      ∃ ret n', iterLoop i false (iterFind key.bytes) rounds (logSize before) kv n =
        .ok (ret, kv, n') ∧ BlockOutcome g logs i key n'.found n'.retNode
  | [], before, rounds, n, log_eq, enough, others, _, absent => by
    obtain ⟨rounds, rfl⟩ : ∃ r, rounds = r + 1 := ⟨rounds - 1, by omega⟩
    rw [append_nil] at log_eq
    refine ⟨0, n, iterLoop_end (rep.placed_split within log_eq) (Nat.le_refl _) rounds,
      .inr ⟨absent, ?_⟩⟩
    rintro off e ⟨_, live, first, rest, equal, -⟩
    refine others e ?_ live
    rw [← log_eq, equal]
    simp
  | e :: after, before, rounds, n, log_eq, enough, others, count, absent => by
    obtain ⟨rounds, rfl⟩ : ∃ r, rounds = r + 1 := ⟨rounds - 1, by omega⟩
    have placed := rep.placed_split within log_eq
    have continue_ := iterFind_loop key rep within after (before ++ [e]) rounds
    simp only [length_cons, Nat.add_lt_add_iff_right] at enough
    cases live : e.live with
    | false =>
      rw [iterLoop_skip placed live]
      refine continue_ n (by rw [log_eq]; simp) enough ?_ ?_ absent
      · intro x member xLive
        rcases mem_append.mp member with earlier | last
        · exact others x earlier xLive
        · rw [mem_singleton.mp last, live] at xLive
          exact absurd xLive Bool.false_ne_true
      · rw [count, liveLog_cons_dead after live]
    | true =>
      have lives : Lives g logs i _ e := ⟨within, live, before, after, log_eq, rfl⟩
      rw [liveLog_cons_live after live, length_cons] at count
      by_cases same : e.key = key
      · -- the key is found, and the loop stops
        have called : iterFind key.bytes (e.node i (logSize before)) kv n =
            .ok (-1, kv, { n with found := true, retNode := e.node i (logSize before) }) := by
          unfold iterFind
          rw [if_pos ((rep.cmpName lives key).mpr same)]
          rfl
        exact ⟨-1, _, iterLoop_stop placed (by simp [live]) (by decide) called rounds,
          .inl ⟨rfl, _, e, lives, same, rfl⟩⟩
      have others' : ∀ x ∈ before ++ [e], x.live = true → x.key ≠ key := by
        intro x member xLive
        rcases mem_append.mp member with earlier | last
        · exact others x earlier xLive
        · rw [mem_singleton.mp last]
          exact same
      have called : iterFind key.bytes (e.node i (logSize before)) kv n =
          .ok (if n.count - 1 > 0 then 0 else -1, kv, { n with count := n.count - 1 }) := by
        unfold iterFind
        rw [if_neg fun equal => same ((rep.cmpName lives key).mp equal)]
      by_cases more : n.count - 1 > 0
      · rw [if_pos more] at called
        rw [iterLoop_next placed (by simp [live]) called]
        refine continue_ _ (by rw [log_eq]; simp) enough others' ?_ absent
        simp only
        omega
      -- no live entry is left
      rw [if_neg more] at called
      have none_left : liveLog after = [] := eq_nil_of_length_eq_zero (by omega)
      refine ⟨-1, _, iterLoop_stop placed (by simp [live]) (by decide) called rounds,
        .inr ⟨absent, ?_⟩⟩
      rintro off x ⟨_, xLive, first, rest, equal, -⟩
      have member : x ∈ before ++ e :: after := by rw [← log_eq, equal]; simp
      rw [append_cons_assoc, mem_append] at member
      rcases member with earlier | later
      · exact others' x earlier xLive
      · have : x ∈ liveLog after := mem_filter.mpr ⟨later, xLive⟩
        rw [none_left] at this
        exact absurd this not_mem_nil

theorem kvblockFind_spec (key : Key) (rep : Rep g kv logs) (within : i < g.num) (node : Kvnode) :
    ∃ found node', kvblockFind kv i key.bytes node = .ok (found, node') ∧
      BlockOutcome g logs i key found node' := by
  have record := rep.record i within
  obtain ⟨ret, n, loop, outcome⟩ := iterFind_loop key rep within _ []
    _ { count := (kv.blocks i).count, found := false, retNode := node } rfl
    (rep.placed within).rounds (by simp) (by rw [record]; rfl) rfl
  refine ⟨n.found, n.retNode, ?_, outcome⟩
  unfold kvblockFind kvblockIter
  rw [logSize_nil] at loop
  rw [loop]
  rfl

theorem scanLoop_spec (key : Key) (rep : Rep g kv logs) : ∀ (left i : Nat) (node : Kvnode),
    i + left = g.num → (∀ j < i, ∀ off e, Lives g logs j off e → e.key ≠ key) →
      (∃ j off e, Lives g logs j off e ∧ e.key = key ∧
        scanLoop kv key.bytes left i false node = .ok (true, e.node j off)) ∨
      ((∀ j off e, Lives g logs j off e → e.key ≠ key) ∧
        ∃ node', scanLoop kv key.bytes left i false node = .ok (false, node'))
  | 0, i, node, total, others => by
    refine .inr ⟨fun j off e lives => others j ?_ off e lives, node, rfl⟩
    have := lives.within
    omega
  | left + 1, i, node, total, others => by
    obtain ⟨found, node', here, outcome⟩ :=
      kvblockFind_spec key rep (by omega : i < g.num) node
    rw [scanLoop, here]
    rcases outcome with ⟨rfl, off, e, lives, same, rfl⟩ | ⟨rfl, absent⟩
    · exact .inl ⟨i, off, e, lives, same, rfl⟩
    refine scanLoop_spec key rep left _ node' (by omega) fun j less => ?_
    rcases Nat.lt_succ_iff_lt_or_eq.mp less with earlier | rfl
    · exact others j earlier
    · exact absent

theorem kvFindScan_found (rep : Rep g kv logs) (unique : Unique g logs) {off : Nat} {e : Entry}
    (lives : Lives g logs i off e) : kvFindScan kv e.key.bytes = .ok (true, e.node i off) := by
  unfold kvFindScan
  rw [rep.num]
  rcases scanLoop_spec e.key rep g.num 0 {} (by omega) (by simp) with
    ⟨i', off', e', lives', same, found⟩ | ⟨absent, -⟩
  · obtain ⟨rfl, rfl, rfl⟩ := unique.same lives' lives same
    exact found
  · exact absurd rfl (absent i off e lives)

theorem kvFindScan_missing (rep : Rep g kv logs) (absent : ∀ value, ¬ Maps g logs key value) :
    ∃ node, kvFindScan kv key.bytes = .ok (false, node) := by
  unfold kvFindScan
  rw [rep.num]
  rcases scanLoop_spec key rep g.num 0 {} (by omega) (by simp) with
    ⟨i', off', e', lives', same, -⟩ | ⟨-, missing⟩
  · exact absurd ⟨i', off', e', lives', same, rfl⟩ (absent e'.value)
  · exact missing

end Phy6212.Kv
