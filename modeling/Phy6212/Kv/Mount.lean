import Phy6212.Kv.Scan

/-!
# Mounting the blocks

`kv_init` recomputes the records from the flash. On logs they come out as those of the logs, and
nothing is written (`kvblockInit_eq`, `initBlocks_spec`).
-/

namespace Phy6212.Kv

open Function List NorFlash

theorem logSize_mod (log : List Entry) : logSize log % 4 = 0 := by
  induction log with
  | nil => rfl
  | cons e log ih =>
    have bounds := e.size_bounds
    rw [logSize_cons]
    omega

variable {size i : Nat}

theorem countNode_eq {before : List Entry} {e : Entry} (room : logSize (before ++ [e]) < 65536) :
    countNode (e.node i (logSize before)) (cellRecord size i before) =
      cellRecord size i (before ++ [e]) := by
  have bounds := e.size_bounds
  have aligned := logSize_mod before
  have sizes := logSize_live_add_dead before
  have few := length_liveLog_le before
  rw [logSize_append, logSize_cons, logSize_nil] at room
  have next : u16 (align4 (logSize before + e.size)) = logSize before + e.size := by
    unfold align4
    rw [if_neg (by omega), u16_of_lt (by omega)]
  have grown (n : Nat) (small : n + e.size < 65536) :
      u16 (n + (logSize before + e.size + 65536 - logSize before)) = n + e.size := by
    unfold u16
    omega
  unfold countNode
  rw [Entry.node_valid]
  cases live : e.live with
  | true =>
    simp only [Entry.node, cellRecord, next, grown (logSize (liveLog before)) (by omega),
      u16_of_lt (n := (liveLog before).length + 1) (by omega), liveLog_append, deadLog_append,
      logSize_append, logSize_cons, logSize_nil, liveLog_cons_live [] live,
      deadLog_cons_live [] live, length_append]
    rfl
  | false =>
    simp only [Entry.node, cellRecord, next, grown (logSize (deadLog before)) (by omega),
      liveLog_append, deadLog_append, logSize_append, logSize_cons, logSize_nil,
      liveLog_cons_dead [] live, deadLog_cons_dead [] live, length_append]
    rfl

variable {log : List Entry}

theorem Placed.counting (small : size < 65536) (kv : Kvset) (before : List Entry)
    (cell : Cell size kv.flash i log) :
    Placed size (kv.setBlock i (cellRecord size i before)) i log := by
  refine ⟨small, cell, ?_, ?_, ?_⟩ <;> simp [Kvset.setBlock, cellRecord]

theorem setBlock_self (kv : Kvset) (i : Nat) (block : Kvblock) :
    (kv.setBlock i block).blocks i = block :=
  update_self ..

theorem setBlock_idem (kv : Kvset) (i : Nat) (block block' : Kvblock) :
    (kv.setBlock i block).setBlock i block' = kv.setBlock i block' := by
  simp only [Kvset.setBlock, update_idem]

theorem iterCalc_loop (small : size < 65536) (kv : Kvset) :
    ∀ (after before : List Entry) (rounds : Nat),
    Cell size kv.flash i (before ++ after) → after.length < rounds →
      iterLoop i true iterCalc rounds (logSize before) (kv.setBlock i (cellRecord size i before)) () =
        .ok (0, kv.setBlock i (cellRecord size i (before ++ after)), ())
  | [], before, rounds, cell, enough => by
    obtain ⟨rounds, rfl⟩ : ∃ r, rounds = r + 1 := ⟨rounds - 1, by omega⟩
    rw [iterLoop_end (Placed.counting small kv before cell) (by simp), append_nil]
  | e :: after, before, rounds, cell, enough => by
    obtain ⟨rounds, rfl⟩ : ∃ r, rounds = r + 1 := ⟨rounds - 1, by omega⟩
    have room := cell.room
    simp only [length_cons, Nat.add_lt_add_iff_right] at enough
    simp only [logSize_append, logSize_cons] at room
    have counted : iterCalc (e.node i (logSize before))
        (kv.setBlock i (cellRecord size i before)) () =
          .ok (0, kv.setBlock i (cellRecord size i (before ++ [e])), ()) := by
      show Except.ok (0, (kv.setBlock i _).setBlock i _, ()) = _
      rw [setBlock_self, setBlock_idem,
        countNode_eq (by simp only [logSize_append, logSize_cons, logSize_nil]; omega)]
    rw [iterLoop_next (Placed.counting small kv before cell) rfl counted]
    rw [append_cons_assoc before after] at cell ⊢
    exact iterCalc_loop small kv after _ rounds cell enough

theorem word32_blank {rd : Nat → UInt8} {o : Nat} (erased : Blank rd o size) {v : Nat} (low : o ≤ v)
    (high : v + 4 ≤ size) : word32 rd v = 0xFFFFFFFF := by
  unfold word32
  rw [erased v low (by omega), erased _ (by omega) (by omega),
    erased _ (by omega) (by omega), erased _ (by omega) (by omega)]
  rfl

theorem probeLoop_blank {rd : Nat → UInt8} {o : Nat} (erased : Blank rd o size)
    (large : 512 ≤ size) : ∀ (rounds v : Nat), o ≤ v →
      probeLoop rd 0xFFFFFFFF rounds v o = o
  | 0, _, _ => rfl
  | rounds + 1, v, low => by
    rw [probeLoop]
    split
    · rw [if_neg (by rw [word32_blank erased low (by omega)]; simp)]
      exact probeLoop_blank erased large rounds _ (by omega)
    · rfl

theorem kvblockCalc_eq (small : size < 65536) (large : 512 ≤ size) (kv : Kvset)
    (cell : Cell size kv.flash i log) (fresh : kv.blocks i = cellRecord size i []) :
    kvblockCalc kv i = .ok (kv.setBlock i (cellRecord size i log)) := by
  have room := cell.room
  have cleared : { kv.blocks i with dirtySize := 0, kvSize := 0, count := 0, roCount := 0 } =
      cellRecord size i [] := by
    rw [fresh]
    rfl
  have loop := iterCalc_loop small kv log [] _ cell (Placed.counting small kv [] cell).rounds
  rw [logSize_nil, nil_append] at loop
  have erased : Blank ((kv.setBlock i (cellRecord size i log)).read (cellRecord size i log))
      (logSize log) size := by
    exact cell.erased
  have magic : word32 _
      ((cellRecord size i log).size - 4) = 0xFFFFFFFF :=
    word32_blank erased (by simp only [cellRecord]; omega) (by simp only [cellRecord]; omega)
  have probe : probeLoop _
      0xFFFFFFFF 128 (cellRecord size i log).writeOffset (cellRecord size i log).writeOffset =
        logSize log :=
    probeLoop_blank erased large 128 _ (Nat.le_refl _)
  unfold kvblockCalc
  simp only [cleared, kvblockIter]
  rw [loop]
  simp only [bind, Except.bind, setBlock_self]
  rw [magic, probe, setBlock_idem]
  rfl

theorem kvblockInit_eq (small : size < 65536) (large : 512 ≤ size) (kv : Kvset)
    (cell : Cell size kv.flash i log) (settled : log = [] ∨ liveLog log ≠ [])
    (fresh : kv.blocks i = { zeroBlock with id := i }) :
    kvblockInit kv i (i * size) size = .ok (kv.setBlock i (cellRecord size i log)) := by
  have calculated : kvblockCalc (kv.setBlock i
      { kv.blocks i with size := u16 size, mem := i * size }) i =
        .ok (kv.setBlock i (cellRecord size i log)) := by
    rw [kvblockCalc_eq small large (kv.setBlock i _) cell, setBlock_idem]
    rw [setBlock_self, fresh, u16_of_lt small]
    rfl
  unfold kvblockInit
  rw [calculated]
  simp only [bind, Except.bind, setBlock_self]
  split
  · next empty =>
    -- no entry is live, so the log is empty and the block is erased
    have nothing : log = [] := by
      rcases settled with rfl | some_live
      · rfl
      · exact absurd (eq_nil_of_length_eq_zero empty) some_live
    subst nothing
    have words (j : Nat) (inside : j < size / 4) :
        word32 ((kv.setBlock i (cellRecord size i [])).read (cellRecord size i [])) _ =
          0xFFFFFFFF :=
      word32_blank (o := 0) (fun o low high => cell.erased o low high) (by omega)
        (by omega : 4 * j + 4 ≤ size)
    have first := words 0 (by omega)
    have same : ¬ ((range ((cellRecord size i []).size / 4)).any fun j => decide (1 ≤ j) &&
        word32 ((kv.setBlock i (cellRecord size i [])).read (cellRecord size i [])) (4 * j) !=
          word32 ((kv.setBlock i (cellRecord size i [])).read (cellRecord size i [])) (4 * 0)) =
        true := by
      rw [Bool.not_eq_true, any_eq_false]
      intro j member
      rw [words j (mem_range.mp member), first]
      simp
    rw [if_neg same, if_neg (by rw [first]; decide)]
  · rfl

def freeSize (g : Geometry) (logs : Nat → List Entry) (i : Nat) : Nat := g.size - logSize (logs i)

/-- The block chosen among those before `i`: none as long as none has room for
more than an erase flag, else one with the most free bytes. -/
def Chosen (g : Geometry) (logs : Nat → List Entry) (i gcSize : Nat) : Option Nat → Prop
  | none => gcSize = 0 ∧ ∀ j < i, freeSize g logs j ≤ 4
  | some gc => gc < i ∧ 4 < gcSize ∧ gcSize = freeSize g logs gc ∧
      ∀ j < i, freeSize g logs j ≤ gcSize

variable {g : Geometry} {logs : Nat → List Entry} {gcBid : Option Nat}

theorem Chosen.take {i gcSize : Nat} (chosen : Chosen g logs i gcSize gcBid)
    (larger : gcSize ≤ freeSize g logs i) (roomy : 4 < freeSize g logs i) :
    Chosen g logs (i + 1) (freeSize g logs i) (some i) := by
  refine ⟨Nat.lt_succ_self i, roomy, rfl, fun j less => ?_⟩
  rcases Nat.lt_succ_iff_lt_or_eq.mp less with earlier | rfl
  · cases gcBid with
    | none =>
      have := chosen.2 j earlier
      omega
    | some gc =>
      have := chosen.2.2.2 j earlier
      omega
  · exact Nat.le_refl _

theorem Chosen.keep {i gcSize : Nat} (chosen : Chosen g logs i gcSize gcBid)
    (smaller : ¬ (gcSize ≤ freeSize g logs i ∧ 4 < freeSize g logs i)) :
    Chosen g logs (i + 1) gcSize gcBid := by
  cases gcBid with
  | none =>
    obtain ⟨zero, earlier⟩ := chosen
    refine ⟨zero, fun j less => ?_⟩
    rcases Nat.lt_succ_iff_lt_or_eq.mp less with before | rfl
    · exact earlier j before
    · omega
  | some gc =>
    obtain ⟨below, roomy, size_eq, earlier⟩ := chosen
    refine ⟨by omega, roomy, size_eq, fun j less => ?_⟩
    rcases Nat.lt_succ_iff_lt_or_eq.mp less with before | rfl
    · exact earlier j before
    · omega

structure Mounting (g : Geometry) (logs : Nat → List Entry) (flash : Mem) (i : Nat)
    (kv : Kvset) : Prop where
  num : kv.num = g.num
  flash : kv.flash = flash
  trace : kv.trace = []
  cache : kv.cache = []
  bid : kv.bid < g.num
  done : ∀ j < i, kv.blocks j = blockRecord g j (logs j)
  ahead : ∀ j, i ≤ j → kv.blocks j = zeroBlock

theorem initBlocks_spec {flash : Mem} (image : Image g flash logs) :
    ∀ (left i gcSize : Nat) (kv : Kvset), i + left = g.num →
      Mounting g logs flash i kv → Chosen g logs i gcSize kv.gcBid →
      ∃ kv' gcSize', initBlocks g.size left i gcSize kv = .ok kv' ∧
        Mounting g logs flash g.num kv' ∧ Chosen g logs g.num gcSize' kv'.gcBid
  | 0, i, gcSize, kv, total, mounting, chosen => by
    subst total
    exact ⟨kv, gcSize, rfl, mounting, chosen⟩
  | left + 1, i, gcSize, kv, total, mounting, chosen => by
    have within : i < g.num := by omega
    have blockImage := image i within
    rw [← mounting.flash] at blockImage
    have named : (kv.setBlock i { kv.blocks i with id := i }).blocks i =
        { zeroBlock with id := i } := by
      rw [setBlock_self, mounting.ahead i (Nat.le_refl _)]
    have init : kvblockInit _ i _ g.size =
        .ok ((kv.setBlock i { kv.blocks i with id := i }).setBlock i (blockRecord g i _)) :=
      kvblockInit_eq g.small g.large _ blockImage.cell blockImage.settled named
    rw [setBlock_idem] at init
    -- the store with one more block mounted, whatever the choice of the next fields
    have mounted : ∀ bid gcBid, bid < g.num → Mounting g logs flash (i + 1)
        { kv.setBlock i (blockRecord g i (logs i)) with bid := bid, gcBid := gcBid } := by
      intro bid gcBid bidWithin
      refine ⟨mounting.num, mounting.flash, mounting.trace, mounting.cache, bidWithin,
        fun j less => ?_, fun j more => ?_⟩
      · rcases Nat.lt_succ_iff_lt_or_eq.mp less with earlier | rfl
        · show update kv.blocks i _ j = _
          rw [update_of_ne (by omega)]
          exact mounting.done j earlier
        · exact setBlock_self ..
      · show update kv.blocks i _ j = _
        rw [update_of_ne (by omega)]
        exact mounting.ahead j (by omega)
    have free : kvblockFreeSize ((kv.setBlock i (blockRecord g i (logs i))).blocks i) =
        freeSize g logs i := by
      rw [setBlock_self]
      rfl
    rw [initBlocks, init]
    simp only [bind, Except.bind, free]
    split
    · next larger =>
      exact initBlocks_spec image left _ _ _ (by omega) (mounted _ _ mounting.bid)
        (chosen.take larger.1 larger.2)
    rename_i smaller
    split
    · exact initBlocks_spec image left _ _ _ (by omega) (mounted _ _ within)
        (chosen.keep smaller)
    · exact initBlocks_spec image left _ _ _ (by omega) (mounted _ _ mounting.bid)
        (chosen.keep smaller)

end Phy6212.Kv
