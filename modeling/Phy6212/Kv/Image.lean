import Phy6212.Kv.Cell

/-!
# What the operations on a block do to a store

A store keeps a log in every block (`LaidOut`), and represents the logs when every log that is not
empty has a live entry (`Rep`).
-/

namespace Phy6212.Kv

open Function NorFlash

/-- A partition the store can work on: its blocks are words, hold at least the
512 bytes that `kvblock_calc` probes, have a 16-bit size, and lie in the 24-bit
address space of the flash. -/
structure Geometry where
  num : Nat
  size : Nat
  two : 2 ≤ num
  large : 512 ≤ size
  small : size < 65536
  words : size % 4 = 0
  mapped : num * size ≤ 2 ^ 24
  deriving DecidableEq, Repr

theorem Geometry.num_le (g : Geometry) : g.num ≤ 32768 := by
  have least : g.num * 512 ≤ g.num * g.size := Nat.mul_le_mul_left _ g.large
  have mapped := g.mapped
  omega

theorem Geometry.apart (g : Geometry) {i j : Nat} (different : i ≠ j) :
    i * g.size + g.size ≤ j * g.size ∨ j * g.size + g.size ≤ i * g.size := by
  rcases Nat.lt_or_gt_of_ne different with less | greater
  · left
    have := Nat.mul_le_mul_right g.size less
    rwa [Nat.succ_mul] at this
  · right
    have := Nat.mul_le_mul_right g.size greater
    rwa [Nat.succ_mul] at this

def blockBytes (g : Geometry) (flash : Mem) (i o : Nat) : UInt8 := flash (i * g.size + o)

/-- The flash holds a log in block `i`: its nodes from the first byte on, erased
bytes behind them, and, unless it is empty, a live entry. -/
structure BlockImage (g : Geometry) (flash : Mem) (i : Nat) (log : List Entry) : Prop where
  holds : HoldsLog (blockBytes g flash i) 0 log
  erased : Blank (blockBytes g flash i) (logSize log) g.size
  room : logSize log + 4 ≤ g.size
  settled : log = [] ∨ liveLog log ≠ []

def blockRecord (g : Geometry) (i : Nat) (log : List Entry) : Kvblock where
  id := i
  mem := i * g.size
  size := g.size
  writeOffset := logSize log
  kvSize := logSize (liveLog log)
  dirtySize := logSize (deadLog log)
  count := (liveLog log).length
  roCount := 0

def Image (g : Geometry) (flash : Mem) (logs : Nat → List Entry) : Prop :=
  ∀ i < g.num, BlockImage g flash i (logs i)

/-- The store represents a log for every block. -/
structure Rep (g : Geometry) (kv : Kvset) (logs : Nat → List Entry) : Prop where
  num : kv.num = g.num
  record : ∀ i < g.num, kv.blocks i = blockRecord g i (logs i)
  image : Image g kv.flash logs

/-- The store keeps a log in every block, which may have dead entries only. -/
structure LaidOut (g : Geometry) (kv : Kvset) (logs : Nat → List Entry) : Prop where
  num : kv.num = g.num
  record : ∀ i < g.num, kv.blocks i = cellRecord g.size i (logs i)
  cell : ∀ i < g.num, Cell g.size kv.flash i (logs i)

def Settled (g : Geometry) (logs : Nat → List Entry) : Prop :=
  ∀ i < g.num, logs i = [] ∨ liveLog (logs i) ≠ []

variable {g : Geometry} {kv kv' : Kvset} {logs : Nat → List Entry} {i : Nat} {log : List Entry}

theorem BlockImage.cell {flash : Mem} (image : BlockImage g flash i log) :
    Cell g.size flash i log :=
  { image with }

theorem Rep.laid (rep : Rep g kv logs) : LaidOut g kv logs :=
  ⟨rep.num, rep.record, fun i within => (rep.image i within).cell⟩

theorem Rep.settled (rep : Rep g kv logs) : Settled g logs :=
  fun i within => (rep.image i within).settled

section

variable (laid : LaidOut g kv logs)

include laid

theorem LaidOut.rep (settled : Settled g logs) : Rep g kv logs := by
  refine ⟨laid.num, laid.record, fun i within => ?_⟩
  have cell := laid.cell i within
  exact ⟨cell.holds, cell.erased, cell.room, settled i within⟩

theorem LaidOut.placed (within : i < g.num) : Placed g.size kv i (logs i) :=
  placed_of_record g.small (laid.record i within) (laid.cell i within)

theorem LaidOut.placed_split (within : i < g.num)
    (log_eq : logs i = log) : Placed g.size kv i log :=
  log_eq ▸ laid.placed within

theorem LaidOut.rewrites (change : Rewrites g.size kv kv' i log) :
    LaidOut g kv' (update logs i log) := by
  refine ⟨change.one.num.trans laid.num, fun j within => ?_, fun j within => ?_⟩
  · rw [change.blocks]
    rcases eq_or_ne j i with rfl | different
    · simp only [update_self]
    · simp only [update_of_ne different]
      exact laid.record j within
  rcases eq_or_ne j i with rfl | different
  · simpa only [update_self] using change.cell
  · simp only [update_of_ne different]
    refine (laid.cell j within).congr fun o high => change.frame _ ?_
    rcases g.apart different with below | above <;> omega

end

theorem Settled.update (settled : Settled g logs) (here : log = [] ∨ liveLog log ≠ []) :
    Settled g (update logs i log) := by
  intro j within
  rcases eq_or_ne j i with rfl | different
  · simpa only [update_self] using here
  · simp only [update_of_ne different]
    exact settled j within

def freshEntry (key : Key) (value : List UInt8) (version : Nat)
    (fits : key.bytes.length + value.length < 498) : Entry where
  key := key
  value := value
  version := UInt8.ofNat (version &&& 0xFF)
  live := true
  fits := by omega

variable {e : Entry}

theorem kvblockSet_full (rep : Rep g kv logs) (within : i < g.num) (env : Env) (version : Nat)
    (full : g.size < logSize (logs i) + e.size + 4) :
    kvblockSet env kv i e.key.bytes e.value version = (none, kv) :=
  kvblockSet_cell_full (rep.laid.record i within) env version full

theorem LaidOut.set (laid : LaidOut g kv logs) (within : i < g.num) (env : Env) {version : Nat}
    (live : e.live = true) (version_eq : e.version = UInt8.ofNat (version &&& 0xFF))
    (room : logSize (logs i) + e.size + 4 ≤ g.size) :
    ∃ kv', kvblockSet env kv i e.key.bytes e.value version = (some (logSize (logs i)), kv') ∧
      LaidOut g kv' (update logs i (logs i ++ [e])) ∧ OneOp kv kv' := by
  obtain ⟨kv', computed, change⟩ := kvblockSet_cell (laid.placed within)
    (laid.record i within) env live version_eq room
  exact ⟨kv', computed, laid.rewrites change, change.one⟩

theorem liveLog_append_live (log : List Entry) (live : e.live = true) :
    liveLog (log ++ [e]) ≠ [] := by
  rw [liveLog_append, liveLog_cons_live [] live]
  simp

theorem kvblockSet_rep (rep : Rep g kv logs) (within : i < g.num) (env : Env) {version : Nat}
    (live : e.live = true) (version_eq : e.version = UInt8.ofNat (version &&& 0xFF))
    (room : logSize (logs i) + e.size + 4 ≤ g.size) :
    ∃ kv', kvblockSet env kv i e.key.bytes e.value version = (some (logSize (logs i)), kv') ∧
      Rep g kv' (update logs i (logs i ++ [e])) ∧ OneOp kv kv' := by
  obtain ⟨kv', computed, laid, one⟩ := rep.laid.set within env live version_eq room
  have settled := rep.settled.update (i := i) (.inr (liveLog_append_live (logs i) live))
  exact ⟨kv', computed, laid.rep settled, one⟩

variable {after before : List Entry}

theorem LaidOut.rm (laid : LaidOut g kv logs) (within : i < g.num) (live : e.live = true)
    (log_eq : logs i = before ++ e :: after) :
    LaidOut g (kvnodeRm kv (e.node i (logSize before)))
        (update logs i (removeEntry before e after)) ∧
      OneOp kv (kvnodeRm kv (e.node i (logSize before))) := by
  have record := laid.record i within
  rw [log_eq] at record
  have change := kvnodeRm_cell (laid.placed_split within log_eq) record live
  exact ⟨laid.rewrites change, change.one⟩

theorem kvnodeRm_rep (rep : Rep g kv logs) (within : i < g.num) (live : e.live = true)
    (log_eq : logs i = before ++ e :: after) :
    Rep g (kvnodeRm kv (e.node i (logSize before)))
        (update logs i (removeEntry before e after)) ∧
      OneOp kv (kvnodeRm kv (e.node i (logSize before))) := by
  obtain ⟨laid, one⟩ := rep.laid.rm within live log_eq
  exact ⟨laid.rep (rep.settled.update (settled_removeEntry live)), one⟩

end Phy6212.Kv
