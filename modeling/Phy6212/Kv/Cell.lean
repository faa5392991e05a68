import Phy6212.Kv.Log

/-!
# One block of the flash

A block holds a log when its nodes stand from its first byte on and the rest is erased (`Cell`);
`cellRecord` is its record.
-/

namespace Phy6212.Kv

open Function List NorFlash

/-! ## Live and dead entries -/

def liveLog (log : List Entry) : List Entry := log.filter Entry.live

def deadLog (log : List Entry) : List Entry := log.filter fun e => !e.live

variable {e : Entry} (log : List Entry)

theorem logSize_live_add_dead : logSize (liveLog log) + logSize (deadLog log) = logSize log := by
  induction log with
  | nil => rfl
  | cons e log ih =>
    simp only [liveLog, deadLog] at ih ⊢
    cases live : e.live <;> simp [live] <;> omega

theorem liveLog_append (first second : List Entry) :
    liveLog (first ++ second) = liveLog first ++ liveLog second :=
  filter_append ..

theorem deadLog_append (first second : List Entry) :
    deadLog (first ++ second) = deadLog first ++ deadLog second :=
  filter_append ..

theorem liveLog_cons_live (live : e.live = true) : liveLog (e :: log) = e :: liveLog log := by
  simp [liveLog, live]

theorem liveLog_cons_dead (dead : e.live = false) : liveLog (e :: log) = liveLog log := by
  simp [liveLog, dead]

theorem deadLog_cons_live (live : e.live = true) : deadLog (e :: log) = deadLog log := by
  simp [deadLog, live]

theorem deadLog_cons_dead (dead : e.live = false) : deadLog (e :: log) = e :: deadLog log := by
  simp [deadLog, dead]

theorem length_le_logSize : 12 * log.length ≤ logSize log := by
  induction log with
  | nil => exact Nat.le_refl _
  | cons e log ih =>
    have bounds := e.size_bounds
    simp only [length_cons, logSize_cons]
    omega

theorem length_liveLog_le : 12 * (liveLog log).length ≤ logSize log :=
  Nat.le_trans (Nat.mul_le_mul_left 12 (length_filter_le ..)) (length_le_logSize log)

/-! ## A block that holds a log -/

def cellBytes (size : Nat) (flash : Mem) (i o : Nat) : UInt8 := flash (i * size + o)

/-- The flash holds a log in block `i`: its nodes from the first byte on, and erased bytes
behind them, at least one word. -/
structure Cell (size : Nat) (flash : Mem) (i : Nat) (log : List Entry) : Prop where
  holds : HoldsLog (cellBytes size flash i) 0 log
  erased : Blank (cellBytes size flash i) (logSize log) size
  room : logSize log + 4 ≤ size

/-- The record of block `i` that agrees with its log. -/
def cellRecord (size i : Nat) (log : List Entry) : Kvblock where
  id := i
  mem := i * size
  size := size
  writeOffset := logSize log
  kvSize := logSize (liveLog log)
  dirtySize := logSize (deadLog log)
  count := (liveLog log).length
  roCount := 0

theorem Cell.congr {size i : Nat} {flash flash' : Mem} {log : List Entry}
    (cell : Cell size flash i log)
    (same : ∀ o < size, flash' (i * size + o) = flash (i * size + o)) :
    Cell size flash' i log := by
  have room := cell.room
  refine ⟨cell.holds.congr fun o _ high => same o (by omega), fun o low high => ?_, room⟩
  exact (same o high).trans (cell.erased o low high)

/-- The record of block `i` names its place on the flash, and the block holds a log. -/
structure Placed (size : Nat) (kv : Kvset) (i : Nat) (log : List Entry) : Prop where
  small : size < 65536
  cell : Cell size kv.flash i log
  id : (kv.blocks i).id = i
  mem : (kv.blocks i).mem = i * size
  size : (kv.blocks i).size = size

variable {size i : Nat} {kv : Kvset} {log before after : List Entry}

theorem placed_of_record (small : size < 65536) (record : kv.blocks i = cellRecord size i log)
    (cell : Cell size kv.flash i log) : Placed size kv i log := by
  refine ⟨small, cell, ?_, ?_, ?_⟩ <;> rw [record] <;> rfl

theorem Placed.read (placed : Placed size kv i log) :
    kv.read (kv.blocks i) = cellBytes size kv.flash i := by
  funext o
  simp only [Kvset.read, cellBytes, placed.mem]

theorem Placed.stored (placed : Placed size kv i (before ++ e :: after)) :
    StoredAt (kv.read (kv.blocks i)) (logSize before) e := by
  have holds := placed.cell.holds
  rw [holdsLog_append, Nat.zero_add] at holds
  rw [placed.read]
  exact holds.2.1

theorem Placed.search_split (placed : Placed size kv i (before ++ e :: after)) (node : Kvnode) :
    kvblockSearch kv (kv.blocks i) (logSize before) node =
      .ok (true, e.node i (logSize before)) := by
  have room := placed.cell.room
  rw [logSize_append, logSize_cons] at room
  have size_eq := placed.size
  have found := search_entry placed.stored (by omega) (by rw [size_eq]; exact placed.small) node
  rwa [placed.id] at found

theorem Placed.search_end (placed : Placed size kv i log) {off : Nat} (behind : logSize log ≤ off)
    (node : Kvnode) :
    kvblockSearch kv (kv.blocks i) off node =
      .ok (false, { node with block := some i, headOffset := u16 off }) := by
  have erased : Blank (kv.read (kv.blocks i)) off (kv.blocks i).size := by
    intro o low high
    rw [placed.read]
    rw [placed.size] at high
    exact placed.cell.erased o (by omega) high
  rw [search_blank erased, placed.id]

theorem Placed.rounds (placed : Placed size kv i log) : log.length < (kv.blocks i).size + 1 := by
  have entries := length_le_logSize log
  have room := placed.cell.room
  rw [placed.size]
  omega

theorem append_cons_assoc (before after : List Entry) (e : Entry) :
    before ++ e :: after = before ++ [e] ++ after := by
  simp

/-! ## Iterating -/

theorem Entry.node_valid (e : Entry) (b o : Nat) : (e.node b o).valid = e.live := by
  cases live : e.live <;> simp [Kvnode.valid, Entry.node, live]

variable {δ : Type} {kv' : Kvset} {fn : Kvnode → Kvset → δ → Except Halt (Int × Kvset × δ)}
  {data data' : δ} {all : Bool}

section

variable (placed : Placed size kv i (before ++ e :: after))

include placed

theorem iterLoop_next (visited : (all || e.live) = true)
    (called : fn (e.node i (logSize before)) kv data = .ok (0, kv', data')) (rounds : Nat) :
    iterLoop i all fn (rounds + 1) (logSize before) kv data =
      iterLoop i all fn rounds (logSize (before ++ [e])) kv' data' := by
  rw [iterLoop, placed.search_split]
  simp only [bind, Except.bind, if_true, Entry.node_valid, visited, called]
  simp [Entry.node]

theorem iterLoop_stop (visited : (all || e.live) = true) {ret : Int} (stops : ret ≠ 0)
    (called : fn (e.node i (logSize before)) kv data = .ok (ret, kv', data')) (rounds : Nat) :
    iterLoop i all fn (rounds + 1) (logSize before) kv data = .ok (ret, kv', data') := by
  rw [iterLoop, placed.search_split]
  simp only [bind, Except.bind, if_true, Entry.node_valid, visited, called]
  rw [if_pos stops]

theorem iterLoop_skip (dead : e.live = false) (rounds : Nat) :
    iterLoop i false fn (rounds + 1) (logSize before) kv data =
      iterLoop i false fn rounds (logSize (before ++ [e])) kv data := by
  rw [iterLoop, placed.search_split]
  simp only [bind, Except.bind, if_true, Entry.node_valid, dead, Bool.or_self]
  simp [Entry.node]

end

theorem iterLoop_end (placed : Placed size kv i log) {off : Nat} (behind : logSize log ≤ off)
    (rounds : Nat) : iterLoop i all fn (rounds + 1) off kv data = .ok (0, kv, data) := by
  rw [iterLoop, placed.search_end behind]
  rfl

/-! ## Changes of one block -/

/-- The two stores differ by one flash operation, and otherwise at most in the
records of their blocks. -/
structure OneOp (kv kv' : Kvset) : Prop where
  op : ∃ op : Op, kv'.trace = kv.trace ++ [op] ∧ kv'.flash = op.apply kv.flash
  num : kv'.num = kv.num
  bid : kv'.bid = kv.bid
  gcBid : kv'.gcBid = kv.gcBid
  cache : kv'.cache = kv.cache

/-- Block `i` alone changes, by one flash operation, and holds the given log afterwards. -/
structure Rewrites (size : Nat) (kv kv' : Kvset) (i : Nat) (log : List Entry) : Prop where
  one : OneOp kv kv'
  blocks : kv'.blocks = update kv.blocks i (cellRecord size i log)
  frame : ∀ a, a < i * size ∨ i * size + size ≤ a → kv'.flash a = kv.flash a
  cell : Cell size kv'.flash i log

theorem Rewrites.record (change : Rewrites size kv kv' i log) :
    kv'.blocks i = cellRecord size i log := by
  rw [change.blocks, update_self]

theorem kvblockGc_cell (record : kv.blocks i = cellRecord size i log) (word : 4 ≤ size) :
    Rewrites size kv (kvblockGc kv i) i [] := by
  refine ⟨⟨⟨_, rfl, rfl⟩, rfl, rfl, rfl, rfl⟩, ?_, ?_, trivial, fun o _ high => ?_, ?_⟩
  · simp only [kvblockGc, Kvset.setBlock, Kvset.flashErase, record, cellRecord]
    rfl
  · intro a outside
    simp only [kvblockGc, Kvset.setBlock, Kvset.flashErase, record, cellRecord]
    exact erase_outside outside
  · simp only [kvblockGc, Kvset.setBlock, Kvset.flashErase, record, cellRecord, cellBytes]
    exact erase_inside (by omega) (by omega)
  · simp only [logSize_nil]
    omega

theorem kvblockSet_cell_full (record : kv.blocks i = cellRecord size i log) (env : Env)
    (version : Nat) (full : size < logSize log + e.size + 4) :
    kvblockSet env kv i e.key.bytes e.value version = (none, kv) := by
  have positive := e.key.nonempty
  have short := e.key.short
  have fits := e.fits
  have malloc : align4 _ + 4 = e.size := rfl
  have alloc : kvblockAllocNode (kv.blocks i) e.size = none := by
    rw [record, kvblockAllocNode, if_neg (by simp only [cellRecord]; omega)]
  unfold kvblockSet
  rw [if_neg (by omega)]
  simp only [malloc, alloc]

def footprint (key value : List UInt8) : Nat :=
  align4 (key.length + value.length + rwFlagSize + 1) + 4

def appended (size : Nat) (kv : Kvset) (i : Nat) (log : List Entry) (nodeSize : Nat)
    (buffer : List UInt8) : Kvset :=
  { kv with
    flash := program kv.flash (i * size + logSize log) buffer
    trace := kv.trace ++ [.program (i * size + logSize log) buffer]
    blocks := update kv.blocks i { cellRecord size i log with
      writeOffset := logSize log + nodeSize
      kvSize := u16 (logSize (liveLog log) + nodeSize)
      count := u16 ((liveLog log).length + 1) } }

theorem getD_append_length (first second : List UInt8) (i : Nat) (d : UInt8) :
    (first ++ second).getD (first.length + i) d = second.getD i d := by
  rw [getD_append_right _ _ _ _ (by omega), Nat.add_sub_cancel_left]

theorem nodeBytes_length (key value : List UInt8) (version : Nat) :
    (nodeBytes key value version).length = key.length + value.length + 6 := by
  simp only [nodeBytes, length_append, length_cons, length_nil]
  omega

theorem storedAt_of_buffer {rd : Nat → UInt8} {o : Nat} {version : Nat} (padding : List UInt8)
    (live : e.live = true) (version_eq : e.version = UInt8.ofNat (version &&& 0xFF))
    (bytes : ∀ i, i + 4 < e.size →
      rd (o + i) = (nodeBytes e.key.bytes e.value version ++ padding).getD i blank)
    (mark : ∀ i < 4, rd (o + e.size - 4 + i) = blank) : StoredAt rd o e := by
  have bounds := e.size_bounds
  have unfolded : e.nul o = o + e.key.bytes.length := rfl
  have layout : nodeBytes e.key.bytes e.value version ++ padding =
      e.key.bytes ++ ([0, sizeLo e.value.length, sizeHi e.key.bytes.length e.value.length,
        e.version, eqByte] ++ (e.value ++ ([sizeHi e.key.bytes.length e.value.length] ++
          padding))) := by
    simp only [nodeBytes, version_eq, append_assoc]
  rw [layout] at bytes
  have header : ∀ j < 5, rd (e.nul o + j) = [0, sizeLo e.value.length,
      sizeHi e.key.bytes.length e.value.length, e.version, eqByte].getD j blank := by
    intro j small
    rw [unfolded, Nat.add_assoc, bytes _ (by omega), getD_append_length,
      getD_append _ _ _ _ (by simpa using small)]
  have behind : ∀ j, j ≤ e.value.length → rd (e.nul o + 5 + j) =
      (e.value ++ ([sizeHi e.key.bytes.length e.value.length] ++ padding)).getD j blank := by
    intro j small
    rw [unfolded, show o + e.key.bytes.length + 5 + j = o + (e.key.bytes.length + (5 + j)) by omega,
      bytes _ (by omega), getD_append_length]
    exact getD_append_length [0, sizeLo e.value.length,
      sizeHi e.key.bytes.length e.value.length, e.version, eqByte] _ j blank
  refine ⟨⟨?_, ?_, ?_, ?_, ?_, ?_, ?_, ?_⟩, ?_⟩
  · intro i h
    rw [bytes i (by omega), getD_append _ _ _ _ h, getD_eq_getElem]
  · exact header 0 (by omega)
  · exact header 1 (by omega)
  · exact header 2 (by omega)
  · exact header 3 (by omega)
  · exact header 4 (by omega)
  · intro i h
    rw [behind i (by omega), getD_append _ _ _ _ h, getD_eq_getElem]
  · have last := behind e.value.length (Nat.le_refl _)
    rw [getD_append_right _ _ _ _ (Nat.le_refl _), Nat.sub_self] at last
    exact last
  · intro i h
    rw [mark i h, Entry.mark, if_pos live]

theorem readBytes_program {mem : Mem} {addr base offset : Nat} {data : List UInt8}
    (aligned : addr = base + offset) (erased : ∀ i < data.length, mem (addr + i) = blank) :
    readBytes (fun o => program mem addr data (base + o)) offset data.length = data := by
  apply ext_getElem
  · simp [readBytes]
  intro i _ h
  simp only [readBytes, getElem_map, getElem_range]
  rw [show base + (offset + i) = addr + i by omega,
    program_erased (by omega) (by omega) (erased i h), Nat.add_sub_cancel_left,
    getD_eq_getElem]

theorem kvblockSet_eq (placed : Placed size kv i log) (record : kv.blocks i = cellRecord size i log)
    (env : Env) (version : Nat) {key value : List UInt8} (positive : 0 < key.length)
    (short : key.length ≤ 63) (accepted : value.length ≤ 0x3FFFF)
    (room : logSize log + footprint key value + 4 ≤ size) :
    ∃ padding, (nodeBytes key value version ++ padding).length + 4 = footprint key value ∧
      (∀ b ∈ padding, ∃ j, env.stack kv.trace.length j = b) ∧
      kvblockSet env kv i key value version = (some (logSize log),
        appended size kv i log (footprint key value) (nodeBytes key value version ++ padding)) := by
  have small := placed.small
  have aligned := align4_spec (key.length + value.length + rwFlagSize + 1)
  have malloc : align4 _ + 4 = footprint key value := rfl
  have used := nodeBytes_length key value version
  simp only [rwFlagSize] at aligned malloc
  refine ⟨(range (align4 (key.length + value.length + rwFlagSize + 1)
    - (nodeBytes key value version).length)).map (env.stack kv.trace.length), ?_, ?_, ?_⟩
  · simp only [length_append, length_map, length_range, used, rwFlagSize]
    omega
  · intro b member
    obtain ⟨j, -, equal⟩ := mem_map.mp member
    exact ⟨j, equal⟩
  generalize buffer_eq : nodeBytes key value version ++ (range _).map _ = buffer
  have padded : buffer.length = align4 (key.length + value.length + rwFlagSize + 1) := by
    rw [← buffer_eq]
    simp only [length_append, length_map, length_range, used, rwFlagSize]
    omega
  simp only [rwFlagSize] at padded
  have alloc : kvblockAllocNode (kv.blocks i) (footprint key value) = some (logSize log,
      { cellRecord size i log with writeOffset := logSize log + footprint key value }) := by
    rw [record, kvblockAllocNode, if_pos (by simp only [cellRecord]; omega)]
    simp only [cellRecord]
    rw [u16_of_lt (by omega)]
  have erased : ∀ j < buffer.length, kv.flash (i * size + logSize log + j) = blank := by
    intro j inside
    have := placed.cell.erased (logSize log + j) (by omega) (by omega)
    rwa [cellBytes, ← Nat.add_assoc] at this
  have verified := readBytes_program rfl erased
  unfold kvblockSet
  rw [if_neg (by omega)]
  have inside : logSize log + buffer.length ≤ size := by omega
  simp only [rwFlagSize, malloc, alloc, buffer_eq, Kvset.flashWrite, Kvset.setBlock, cellRecord,
    if_pos inside]
  rw [← padded, if_pos (by exact verified)]
  simp only [appended, cellRecord, update_idem]

theorem cellRecord_append (live : e.live = true) (room : logSize log + e.size < 65536) :
    cellRecord size i (log ++ [e]) =
      { cellRecord size i log with
        writeOffset := logSize log + e.size
        kvSize := u16 (logSize (liveLog log) + e.size)
        count := u16 ((liveLog log).length + 1) } := by
  have live_le := length_liveLog_le log
  have sizes := logSize_live_add_dead log
  rw [u16_of_lt (by omega), u16_of_lt (by omega)]
  simp only [cellRecord, liveLog_append, deadLog_append, logSize_append, logSize_cons,
    logSize_nil, liveLog_cons_live [] live, deadLog_cons_live [] live, length_append]
  rfl

theorem kvblockSet_cell (placed : Placed size kv i log)
    (record : kv.blocks i = cellRecord size i log) (env : Env) {version : Nat} (live : e.live = true)
    (version_eq : e.version = UInt8.ofNat (version &&& 0xFF))
    (room : logSize log + e.size + 4 ≤ size) :
    ∃ kv', kvblockSet env kv i e.key.bytes e.value version = (some (logSize log), kv') ∧
      Rewrites size kv kv' i (log ++ [e]) := by
  have bounds := e.size_bounds
  have small := placed.small
  obtain ⟨padding, total, -, computed⟩ := kvblockSet_eq placed record env version e.key.nonempty
    e.key.short (show e.value.length ≤ 0x3FFFF by omega) room
  rw [show footprint e.key.bytes e.value = e.size from rfl] at total computed
  have cell := placed.cell
  have written : ∀ o, cellBytes size (appended size kv i log e.size _).flash i o =
      program kv.flash _
        (nodeBytes e.key.bytes e.value version ++ padding) _ := fun _ => rfl
  have kept : ∀ o, o < logSize log ∨ logSize log + e.size - 4 ≤ o →
      cellBytes size (appended size kv i log e.size
        (nodeBytes e.key.bytes e.value version ++ padding)).flash i o = cellBytes size kv.flash i o := by
    intro o outside
    rw [written, program_outside (by omega)]
    rfl
  have blank_ : ∀ o, logSize log ≤ o → o < size → kv.flash _ = blank :=
    cell.erased
  have stored : StoredAt (cellBytes size (appended size kv i log e.size
      (nodeBytes e.key.bytes e.value version ++ padding)).flash i) (logSize log) e := by
    refine storedAt_of_buffer padding live version_eq (fun o small => ?_) fun o small => ?_
    · rw [written, program_erased (by omega) (by omega) (blank_ _ (by omega) (by omega))]
      congr 1
      omega
    · rw [kept _ (by omega)]
      exact blank_ _ (by omega) (by omega)
  refine ⟨_, computed, ⟨⟨_, rfl, rfl⟩, rfl, rfl, rfl, rfl⟩, ?_,
    fun a outside => program_outside (by omega), ?_, fun o low high => ?_, ?_⟩
  · rw [cellRecord_append live (by omega)]
    rfl
  · rw [holdsLog_append, Nat.zero_add]
    exact ⟨cell.holds.congr fun o _ high => kept o (by omega), stored, trivial⟩
  · simp only [logSize_append, logSize_cons, logSize_nil] at low
    rw [kept o (by omega)]
    exact blank_ o (by omega) high
  · simp only [logSize_append, logSize_cons, logSize_nil]
    omega

/-- The log after a live entry was removed: the entry is dead, or the block was
erased when no other entry was live. -/
def removeEntry (before : List Entry) (e : Entry) (after : List Entry) : List Entry :=
  if 1 < (liveLog (before ++ e :: after)).length then before ++ e.kill :: after else []

theorem liveLog_split (live : e.live = true) :
    liveLog (before ++ e :: after) = liveLog before ++ e :: liveLog after := by
  rw [liveLog_append, liveLog_cons_live after live]

theorem liveLog_removeEntry (live : e.live = true) :
    liveLog (removeEntry before e after) = liveLog before ++ liveLog after := by
  unfold removeEntry
  split
  · rw [liveLog_append, liveLog_cons_dead after rfl]
  rename_i few
  rw [liveLog_split live] at few
  simp only [length_append, length_cons] at few
  have none_before : liveLog before = [] := eq_nil_of_length_eq_zero (by omega)
  have none_after : liveLog after = [] := eq_nil_of_length_eq_zero (by omega)
  rw [none_before, none_after]
  rfl

theorem settled_removeEntry (live : e.live = true) :
    removeEntry before e after = [] ∨ liveLog (removeEntry before e after) ≠ [] := by
  by_cases many : 1 < (liveLog (before ++ e :: after)).length
  · right
    intro none_left
    rw [liveLog_removeEntry live] at none_left
    rw [liveLog_split live, length_append, length_cons] at many
    have lengths := congrArg length none_left
    simp only [length_nil, length_append] at lengths
    omega
  · left
    rw [removeEntry, if_neg many]

theorem kvnodeRm_valid (kv : Kvset) {node : Kvnode} (named : node.block = some i)
    (valid : node.valid = true) (writable : node.rw = true) :
    kvnodeRm kv node =
      if (kv.blocks i).count > (kv.blocks i).roCount + 1 then
        (kv.flashWrite (kv.blocks i) (node.nextOffset - 4) [0, 0, 0, 0]).setBlock i
          { kv.blocks i with
            dirtySize := u16 ((kv.blocks i).dirtySize + node.nodeSize)
            kvSize := u16 ((kv.blocks i).kvSize + 65536 - node.nodeSize)
            count := u16 ((kv.blocks i).count + 65535) }
      else kvblockGc kv i := by
  unfold kvnodeRm
  simp only [named]
  rw [if_pos ⟨valid, writable⟩]

theorem cellRecord_kill (live : e.live = true) (room : logSize (before ++ e :: after) < 65536) :
    cellRecord size i (before ++ e.kill :: after) =
      { cellRecord size i (before ++ e :: after) with
        dirtySize := u16 (logSize (deadLog (before ++ e :: after)) + e.size)
        kvSize := u16 (logSize (liveLog (before ++ e :: after)) + 65536 - e.size)
        count := u16 ((liveLog (before ++ e :: after)).length + 65535) } := by
  have sizes := logSize_live_add_dead (before ++ e :: after)
  have live_le := length_liveLog_le (before ++ e :: after)
  simp only [cellRecord, liveLog_split live, liveLog_append, deadLog_append,
    liveLog_cons_dead after e.kill_live, deadLog_cons_dead after e.kill_live,
    deadLog_cons_live after live, logSize_append, logSize_cons, length_append,
    length_cons, Entry.kill_size] at *
  have dirty : u16 (logSize (deadLog before) + logSize (deadLog after) + e.size) =
      logSize (deadLog before) + (e.size + logSize (deadLog after)) := by
    rw [u16_of_lt (by omega)]
    omega
  have used : u16 (logSize (liveLog before) + (e.size + logSize (liveLog after)) + 65536 - e.size) =
      logSize (liveLog before) + logSize (liveLog after) := by
    unfold u16
    omega
  have count : u16 ((liveLog before).length + ((liveLog after).length + 1) + 65535) =
      (liveLog before).length + (liveLog after).length := by
    unfold u16
    omega
  rw [dirty, used, count]

def killed (size : Nat) (kv : Kvset) (i : Nat) (before : List Entry) (e : Entry)
    (after : List Entry) : Kvset :=
  { kv with
    flash := program kv.flash (i * size + (logSize before + e.size - 4)) [0, 0, 0, 0]
    trace := kv.trace ++ [.program (i * size + (logSize before + e.size - 4)) [0, 0, 0, 0]]
    blocks := update kv.blocks i (cellRecord size i (before ++ e.kill :: after)) }

theorem killed_cell (cell : Cell size kv.flash i (before ++ e :: after)) :
    Rewrites size kv (killed size kv i before e after) i (before ++ e.kill :: after) := by
  have bounds := e.size_bounds
  have room := cell.room
  have holds := cell.holds
  have erased := cell.erased
  simp only [logSize_append, logSize_cons] at room erased
  have kept : ∀ o, o < logSize before + e.size - 4 ∨ logSize before + e.size ≤ o →
      cellBytes size (killed size kv i before e after).flash i o = cellBytes size kv.flash i o := by
    intro o outside
    exact program_outside (by simp only [length_cons, length_nil]; omega)
  have cleared : ∀ j < 4,
      cellBytes size (killed size kv i before e after).flash i (logSize before + e.size - 4 + j) = 0 := by
    intro j small
    exact program_zeros (n := 4) (by omega) (by omega)
  rw [holdsLog_append, Nat.zero_add] at holds
  obtain ⟨first, stored, rest⟩ := holds
  refine ⟨⟨⟨_, rfl, rfl⟩, rfl, rfl, rfl, rfl⟩, rfl, fun a outside => program_outside ?_, ?_,
    fun o low high => ?_, ?_⟩
  · simp only [length_cons, length_nil]
    omega
  · rw [holdsLog_append, Nat.zero_add]
    refine ⟨first.congr fun o _ high => kept o (by omega),
      stored.kill (fun o _ high => kept o (by omega)) cleared,
      rest.congr fun o low _ => kept o (by omega)⟩
  · simp only [logSize_append, logSize_cons, Entry.kill_size] at low
    rw [kept o (by omega)]
    exact erased o (by omega) high
  · simp only [logSize_append, logSize_cons, Entry.kill_size]
    omega

theorem kvnodeRm_cell (placed : Placed size kv i (before ++ e :: after))
    (record : kv.blocks i = cellRecord size i (before ++ e :: after)) (live : e.live = true) :
    Rewrites size kv (kvnodeRm kv (e.node i (logSize before))) i (removeEntry before e after) := by
  have small := placed.small
  have room := placed.cell.room
  rw [kvnodeRm_valid kv rfl ((e.node_valid i _).trans live) rfl, record]
  unfold removeEntry
  by_cases many : 1 < (liveLog (before ++ e :: after)).length
  · have computed : (kv.flashWrite (cellRecord size i (before ++ e :: after))
        ((e.node i (logSize before)).nextOffset - 4) [0, 0, 0, 0]).setBlock i
          { cellRecord size i (before ++ e :: after) with
            dirtySize := u16 ((cellRecord size i (before ++ e :: after)).dirtySize
              + (e.node i (logSize before)).nodeSize)
            kvSize := u16 ((cellRecord size i (before ++ e :: after)).kvSize + 65536
              - (e.node i (logSize before)).nodeSize)
            count := u16 ((cellRecord size i (before ++ e :: after)).count + 65535) } =
        killed size kv i before e after := by
      rw [killed, cellRecord_kill live (by omega)]
      simp only [logSize_append, logSize_cons] at room
      simp only [Kvset.flashWrite, Kvset.setBlock]
      rw [if_pos (by simp only [cellRecord, Entry.node, length_cons, length_nil]; omega)]
      rfl
    rw [if_pos (by simp only [cellRecord]; omega), if_pos many, computed]
    exact killed_cell placed.cell
  · rw [if_neg (by simp only [cellRecord]; omega), if_neg many]
    exact kvblockGc_cell record (by omega)

end Phy6212.Kv
