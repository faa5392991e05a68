import Phy6212.Kv.Mount
import Phy6212.Runs.Reach

/-!
# Calls on one block

An erased block is changed by `kvblock_set` and by `kvnode_rm` on the nodes that are found (`Run`).
-/

namespace Phy6212.Kv.BlockRun

open List NorFlash Runs

/-! ## The calls -/

structure Item where
  key : List UInt8
  value : List UInt8
  version : UInt8
  deriving DecidableEq, Repr

inductive Call where
  | set (key value : List UInt8) (version : Nat)
  | rm (k : Nat)
  deriving DecidableEq, Repr

/-- The store, and what was written into the block and not removed since. -/
structure Run where
  kv : Kvset
  items : List Item

def collectNode (node : Kvnode) (kv : Kvset) (nodes : List Kvnode) :
    Except Halt (Int × Kvset × List Kvnode) :=
  .ok (0, kv, nodes ++ [node])

def liveNodes (i : Nat) (kv : Kvset) : Except Halt (List Kvnode) := do
  let (_, _, nodes) ← kvblockIter i false collectNode kv []
  .ok nodes

/-- What a node of block `i` says: the string at its head, the bytes of its value and its
version. -/
def itemOf (i : Nat) (kv : Kvset) (node : Kvnode) : Item where
  key := readString (kv.headOf node) (kv.blocks i).size 0
  value := readBytes (kv.valueOf node) 0 node.valSize
  version := node.version

def Run.step (env : Env) (i : Nat) (s : Run) : Call → Except Halt Run
  | .set key value version =>
    match kvblockSet env s.kv i key value version with
    | (some _, kv) => .ok ⟨kv, s.items ++ [⟨key, value, UInt8.ofNat (version &&& 0xFF)⟩]⟩
    | (none, kv) => .ok ⟨kv, s.items⟩
  | .rm k => do
      let nodes ← liveNodes i s.kv
      match nodes[k]? with
      | some node => .ok ⟨kvnodeRm s.kv node, s.items.eraseIdx k⟩
      | none => .ok s

variable {i size : Nat} {kv : Kvset} {s : Run} {key value : List UInt8}

theorem Run.step_written {env : Env} {version off : Nat}
    (written : kvblockSet env s.kv i key value version = (some off, kv)) :
    s.step env i (.set key value version) =
      .ok ⟨kv, s.items ++ [⟨key, value, UInt8.ofNat (version &&& 0xFF)⟩]⟩ := by
  simp only [Run.step, written]

theorem Run.step_refused {env : Env} {version : Nat}
    (refused : kvblockSet env s.kv i key value version = (none, s.kv)) :
    s.step env i (.set key value version) = .ok s := by
  simp only [Run.step, refused]

/-- A key and a value that a node can hold: the key has 1 to 63 bytes without NUL that do not
read as a line, and the value less than 1024 bytes. -/
def Storable (key value : List UInt8) : Prop :=
  (0 < key.length ∧ key.length ≤ 63 ∧ (∀ b ∈ key, b ≠ 0) ∧ endsLine false key = false) ∧
    value.length < 1024

def Call.Storable : Call → Prop
  | .set key value _ => BlockRun.Storable key value
  | .rm _ => True

structure Erased (size i : Nat) (kv : Kvset) : Prop where
  small : size < 65536
  record : kv.blocks i = cellRecord size i []
  blank : ∀ o < size, kv.flash (i * size + o) = blank

def erasedBlock (size : Nat) : Kvset where
  flash := fun _ => blank
  trace := []
  num := 1
  blocks := fun i => cellRecord size i []
  bid := 0
  gcBid := none
  cache := []

theorem erasedBlock_erased (small : size < 65536) : Erased size 0 (erasedBlock size) :=
  ⟨small, rfl, fun _ _ => rfl⟩

def onesStack : Env := ⟨true, fun _ => true, fun _ _ => 1⟩

/-! ## The nodes of a log -/

def Item.ofEntry (e : Entry) : Item := ⟨e.key.bytes, e.value, e.version⟩

def nodesFrom (i : Nat) : Nat → List Entry → List Kvnode
  | _, [] => []
  | o, e :: log =>
    if e.live then e.node i o :: nodesFrom i (o + e.size) log else nodesFrom i (o + e.size) log

theorem collectNode_loop : ∀ (after before : List Entry) (rounds : Nat) (nodes : List Kvnode),
    Placed size kv i (before ++ after) → after.length < rounds →
      iterLoop i false collectNode rounds (logSize before) kv nodes =
        .ok (0, kv, nodes ++ nodesFrom i (logSize before) after)
  | _, _, 0, _, _, enough => absurd enough (Nat.not_lt_zero _)
  | [], before, rounds + 1, nodes, placed, _ => by
    rw [iterLoop_end placed (by simp), nodesFrom, append_nil]
  | e :: after, before, rounds + 1, nodes, placed, enough => by
    have rest : Placed size kv i _ := append_cons_assoc before after e ▸ placed
    have offset : logSize (before ++ [e]) = logSize before + e.size := by simp
    have fewer : after.length < rounds := Nat.lt_of_succ_lt_succ enough
    cases live : e.live with
    | false =>
      rw [iterLoop_skip placed live, collectNode_loop after _ rounds nodes rest fewer, nodesFrom,
        live, offset]
      rfl
    | true =>
      rw [iterLoop_next placed (by simp [live]) rfl,
        collectNode_loop after _ rounds _ rest fewer, nodesFrom, live, offset]
      simp

theorem liveNodes_eq {log : List Entry} (placed : Placed size kv i log) :
    liveNodes i kv = .ok (nodesFrom i 0 log) := by
  have loop := collectNode_loop log [] _ [] placed placed.rounds
  rw [logSize_nil, nil_append] at loop
  unfold liveNodes kvblockIter
  rw [loop]
  rfl

theorem itemOf_node {before after : List Entry} {e : Entry}
    (placed : Placed size kv i (before ++ e :: after)) :
    itemOf i kv (e.node i (logSize before)) = Item.ofEntry e := by
  have room := placed.cell.room
  have bounds := e.size_bounds
  simp only [logSize_append, logSize_cons] at room
  have str := placed.headOf
  have key_eq : readString (kv.headOf (e.node i (logSize before))) (kv.blocks i).size 0 =
      e.key.bytes := by
    refine readString_eq ⟨fun j h => ?_, ?_, str.nonzero⟩ (by rw [placed.size]; omega)
    · rw [Nat.zero_add]
      exact str.bytes j h
    · simp only [Nat.zero_add]
      exact str.nul
  have value_eq := placed.valueOf (Nat.le_refl e.value.length)
  rw [take_length] at value_eq
  have size_eq : (e.node i (logSize before)).valSize = e.value.length := rfl
  unfold itemOf Item.ofEntry
  rw [key_eq, size_eq, value_eq]
  rfl

theorem nodesFrom_items : ∀ (after before : List Entry), Placed size kv i (before ++ after) →
    (nodesFrom i (logSize before) after).map (itemOf i kv) = (liveLog after).map Item.ofEntry
  | [], _, _ => rfl
  | e :: after, before, placed => by
    have offset : logSize before + e.size = logSize (before ++ [e]) := by simp
    have rest := nodesFrom_items after _ (append_cons_assoc before after e ▸ placed)
    cases live : e.live with
    | false =>
      rw [nodesFrom, live, offset, liveLog_cons_dead after live]
      exact rest
    | true =>
      rw [nodesFrom, live, offset, liveLog_cons_live after live, if_pos rfl, map_cons,
        map_cons, itemOf_node placed, rest]

theorem nodesFrom_getElem? : ∀ {log : List Entry} {o k : Nat} {node : Kvnode},
    (nodesFrom i o log)[k]? = some node →
      ∃ before e after, log = before ++ e :: after ∧ e.live = true ∧
        (liveLog before).length = k ∧ node = e.node i (o + logSize before)
  | [], _, _, _, found => absurd found (by simp [nodesFrom])
  | e :: log, o, k, node, found => by
    cases live : e.live with
    | false =>
      rw [nodesFrom, live, if_neg Bool.false_ne_true] at found
      obtain ⟨before, e', after, rfl, live', count, rfl⟩ := nodesFrom_getElem? found
      refine ⟨e :: before, e', after, rfl, live', ?_, ?_⟩
      · rw [liveLog_cons_dead before live, count]
      · rw [logSize_cons, Nat.add_assoc]
    | true =>
      rw [nodesFrom, live, if_pos rfl] at found
      cases k with
      | zero =>
        rw [getElem?_cons_zero, Option.some.injEq] at found
        exact ⟨[], e, log, rfl, live, rfl, found.symm⟩
      | succ k =>
        obtain ⟨before, e', after, rfl, live', count, rfl⟩ := nodesFrom_getElem? found
        refine ⟨e :: before, e', after, rfl, live', ?_, ?_⟩
        · rw [liveLog_cons_live before live, length_cons, count]
        · rw [logSize_cons, Nat.add_assoc]

/-! ## What a run keeps -/

/-- The block holds a log whose live entries are the items, and its record agrees with the
log. -/
structure Agrees (size i : Nat) (s : Run) (log : List Entry) : Prop where
  placed : Placed size s.kv i log
  record : s.kv.blocks i = cellRecord size i log
  settled : log = [] ∨ liveLog log ≠ []
  items : (liveLog log).map Item.ofEntry = s.items

variable {log : List Entry}

theorem Erased.agrees (erased : Erased size i kv) (word : 4 ≤ size) :
    Agrees size i ⟨kv, []⟩ [] := by
  refine ⟨placed_of_record erased.small erased.record ⟨trivial, fun o _ high => ?_, ?_⟩,
    erased.record, .inl rfl, rfl⟩
  · exact erased.blank o high
  · rw [logSize_nil]
    omega

def Storable.entry {key value : List UInt8} (storable : Storable key value) (version : Nat) : Entry where
  key := ⟨key, storable.1.1, storable.1.2.1, storable.1.2.2.1, storable.1.2.2.2⟩
  value := value
  version := UInt8.ofNat (version &&& 0xFF)
  live := true
  fits := storable.2

theorem Agrees.set (agrees : Agrees size i s log) (env : Env) (storable : Storable key value)
    (version : Nat) :
    ∃ s' log', s.step env i (.set key value version) = .ok s' ∧ Agrees size i s' log' := by
  by_cases room : logSize log + (storable.entry version).size + 4 ≤ size
  · obtain ⟨kv', computed, change⟩ := kvblockSet_cell agrees.placed agrees.record env
      (show (storable.entry version).live = true from rfl)
      (show (storable.entry version).version = UInt8.ofNat _ from rfl) room
    refine ⟨_, log ++ [storable.entry version], Run.step_written computed,
      placed_of_record agrees.placed.small change.record change.cell, change.record, .inr ?_, ?_⟩
    · simp [liveLog, Storable.entry]
    · rw [liveLog_append, map_append, agrees.items]
      rfl
  · have full := kvblockSet_cell_full (e := storable.entry version) agrees.record env version
      (Nat.lt_of_not_le room)
    exact ⟨s, log, Run.step_refused full, agrees⟩

theorem Agrees.rm (agrees : Agrees size i s log) (env : Env) (k : Nat) :
    ∃ s' log', s.step env i (.rm k) = .ok s' ∧ Agrees size i s' log' := by
  unfold Run.step
  rw [liveNodes_eq agrees.placed]
  simp only [bind, Except.bind]
  cases found : (nodesFrom i 0 log)[k]? with
  | none => exact ⟨s, log, rfl, agrees⟩
  | some node =>
    obtain ⟨before, e, after, rfl, live, count, rfl⟩ := nodesFrom_getElem? found
    rw [Nat.zero_add] at found ⊢
    have change := kvnodeRm_cell agrees.placed agrees.record live
    refine ⟨_, removeEntry before e after, rfl,
      placed_of_record agrees.placed.small change.record change.cell, change.record,
      settled_removeEntry live, ?_⟩
    have items := agrees.items
    rw [liveLog_split live, map_append, map_cons] at items
    have position : k = ((liveLog before).map Item.ofEntry).length := by rw [length_map, count]
    rw [liveLog_removeEntry live, ← items, position, eraseIdx_append_of_length_le (Nat.le_refl _),
      Nat.sub_self, map_append]
    rfl

variable {call : Call}

theorem Agrees.step (agrees : Agrees size i s log) (env : Env) (storable : call.Storable) :
    ∃ s' log', s.step env i call = .ok s' ∧ Agrees size i s' log' := by
  cases call with
  | set key value version => exact agrees.set env storable version
  | rm k => exact agrees.rm env k

theorem Agrees.calls (env : Env) : ∀ (calls : List Call) {s : Run} {log : List Entry},
    Agrees size i s log → (∀ call ∈ calls, call.Storable) →
      ∃ s' log', calls.foldlM (Run.step env i) s = .ok s' ∧ Agrees size i s' log'
  | [], s, log, agrees, _ => ⟨s, log, rfl, agrees⟩
  | call :: calls, s, log, agrees, storable => by
    obtain ⟨s₁, log₁, first, agrees₁⟩ := agrees.step env (storable call mem_cons_self)
    obtain ⟨s₂, log₂, rest, agrees₂⟩ := Agrees.calls env calls agrees₁ fun call' member =>
      storable call' (mem_cons_of_mem _ member)
    refine ⟨s₂, log₂, ?_, agrees₂⟩
    rw [foldlM_cons, first]
    exact rest

/-! ## Reading the items back -/

theorem Erased.nothing (erased : Erased size i kv) : liveNodes i kv = .ok [] := by
  have read : Blank (kv.read (kv.blocks i)) 0 (kv.blocks i).size := by
    rw [erased.record]
    exact fun o _ high => erased.blank o high
  unfold liveNodes kvblockIter iterLoop
  rw [search_blank read]
  rfl

theorem Erased.step_tiny (erased : Erased size i kv) (tiny : size < 4) (env : Env)
    (storable : call.Storable) : Run.step env i ⟨kv, []⟩ call = .ok ⟨kv, []⟩ := by
  cases call with
  | set key value version =>
    have full := kvblockSet_cell_full (e := Storable.entry storable version) erased.record env
      version (by omega)
    exact Run.step_refused full
  | rm k =>
    unfold Run.step
    rw [erased.nothing]
    simp [bind, Except.bind]

/-- **The existing nodes are the items**, in the order of writing, each with its key, its value and
its version. -/
theorem liveNodes_items (env : Env) {size i : Nat} {kv : Kvset} (erased : Erased size i kv)
    (calls : List Call) (storable : ∀ call ∈ calls, call.Storable) :
    ∃ s nodes, calls.foldlM (Run.step env i) ⟨kv, []⟩ = .ok s ∧
      liveNodes i s.kv = .ok nodes ∧ nodes.map (itemOf i s.kv) = s.items := by
  rcases Nat.lt_or_ge size 4 with tiny | word
  · refine ⟨⟨kv, []⟩, [], ?_, erased.nothing, rfl⟩
    induction calls with
    | nil => rfl
    | cons call calls same =>
      rw [foldlM_cons, erased.step_tiny tiny env (storable call mem_cons_self)]
      exact same fun call' member => storable call' (mem_cons_of_mem _ member)
  obtain ⟨s, log, ran, agrees⟩ := Agrees.calls env calls (erased.agrees word) storable
  refine ⟨s, nodesFrom i 0 log, ran, liveNodes_eq agrees.placed, ?_⟩
  rw [← agrees.items]
  exact nodesFrom_items log [] agrees.placed

theorem liveNodes_items_two :
    ∃ s nodes, [Call.set [97] [1, 2] 1, .set [97] [0, 61, 10] 2, .rm 0].foldlM
        (Run.step onesStack 0) ⟨erasedBlock 512, []⟩ = .ok s ∧
      liveNodes 0 s.kv = .ok nodes ∧ nodes.map (itemOf 0 s.kv) = s.items :=
  liveNodes_items onesStack (erasedBlock_erased (by decide)) _ (by
    simp only [mem_cons, not_mem_nil, or_false, forall_eq_or_imp, forall_eq]
    exact ⟨⟨⟨by decide, by decide, by simp, rfl⟩, by decide⟩,
      ⟨⟨by decide, by decide, by simp, rfl⟩, by decide⟩, trivial⟩)

/-! ## The record of the block -/

/-- The call is refused without a change, or writes only what a node can hold. -/
def Sound (env : Env) (i : Nat) (s : Run) : Call → Prop
  | .set key value version =>
    kvblockSet env s.kv i key value version = (none, s.kv) ∨ Storable key value
  | .rm _ => True

theorem Agrees.sound {s' : Run} (agrees : Agrees size i s log) (env : Env)
    (sound : Sound env i s call) (step : s.step env i call = .ok s') :
    ∃ log', Agrees size i s' log' := by
  cases call with
  | rm k =>
    obtain ⟨s₁, log₁, step₁, agrees₁⟩ := agrees.rm env k
    obtain rfl := Except.ok.inj (step.symm.trans step₁)
    exact ⟨log₁, agrees₁⟩
  | set key value version =>
    rcases sound with refused | storable
    · obtain rfl := Except.ok.inj (step.symm.trans (Run.step_refused refused))
      exact ⟨log, agrees⟩
    · obtain ⟨s₁, log₁, step₁, agrees₁⟩ := agrees.set env storable version
      obtain rfl := Except.ok.inj (step.symm.trans step₁)
      exact ⟨log₁, agrees₁⟩

/-- **The record of the block is the one `kvblock_init` finds** when it reads the flash
again, and it writes nothing. -/
theorem kvblockInit_record (env : Env) {size i : Nat} {kv : Kvset} (erased : Erased size i kv)
    (large : 512 ≤ size) {s : Run} (run : Reaches (Run.step env i) (Sound env i) ⟨kv, []⟩ s) :
    kvblockInit (s.kv.setBlock i { zeroBlock with id := i }) i (i * size) size = .ok s.kv ∧
      (s.kv.blocks i).writeOffset ≤ size - 4 := by
  have held : ∃ log, Agrees size i s log := by
    induction run with
    | refl => exact ⟨[], erased.agrees (by omega)⟩
    | tail run sound step held =>
      obtain ⟨log, agrees⟩ := held
      exact agrees.sound env sound step
  obtain ⟨log, agrees⟩ := held
  have room := agrees.placed.cell.room
  constructor
  · have init := kvblockInit_eq agrees.placed.small large
      (s.kv.setBlock i { zeroBlock with id := i }) agrees.placed.cell agrees.settled
      (setBlock_self ..)
    rw [init, setBlock_idem, ← agrees.record]
    simp only [Kvset.setBlock, Function.update_eq_self]
  · rw [agrees.record]
    exact Nat.le_sub_of_add_le room

theorem kvblockInit_record_one :
    ∃ s, Reaches (Run.step onesStack 0) (Sound onesStack 0) ⟨erasedBlock 512, []⟩ s ∧
      kvblockInit (s.kv.setBlock 0 { zeroBlock with id := 0 }) 0 (0 * 512) 512 = .ok s.kv ∧
      (s.kv.blocks 0).writeOffset ≤ 512 - 4 := by
  have erased := erasedBlock_erased (show 512 < 65536 by decide)
  have storable : Storable [97] [1, 2] := ⟨⟨by decide, by decide, by simp, rfl⟩, by decide⟩
  have sound : Sound onesStack 0 ⟨erasedBlock 512, []⟩ (.set [97] [1, 2] 1) := .inr storable
  obtain ⟨s, log, step, -⟩ := (erased.agrees (by decide)).set onesStack storable 1
  have run : Reaches _ _ ⟨erasedBlock 512, []⟩ s :=
    .tail .refl sound step
  exact ⟨s, run, kvblockInit_record onesStack erased (by decide) run⟩

/-! ## Values that the header cannot describe -/

theorem searchLoop_none {rd : Nat → UInt8} (node : Kvnode) :
    ∀ (left c : Nat) (delim : Option Nat),
      (∀ j, c ≤ j → j < c + left → rd j ≠ nlByte ∧ (rd j = 0 → rwRejected rd size j = true)) →
        searchLoop rd size left c delim node = .ok (false, node)
  | 0, _, _, _ => rfl
  | left + 1, c, delim, nothing => by
    have here := nothing c (Nat.le_refl _) (by omega)
    have rest (delim' : Option Nat) : searchLoop rd size left _ delim' node = .ok (false, node) :=
      searchLoop_none node left (c + 1) delim' fun j low high => nothing j (by omega) (by omega)
    rw [searchLoop.eq_def]
    dsimp only
    rw [if_neg here.1]
    by_cases zero : rd c = 0
    · rw [if_pos zero, if_pos (here.2 zero), rest]
    rw [if_neg zero]
    split
    · exact rest _
    · split <;> exact rest _

theorem kvblockSearch_none {block : Kvblock}
    (nothing : ∀ j < block.size, kv.read block j ≠ nlByte ∧
      (kv.read block j = 0 → rwRejected (kv.read block) block.size j = true)) (node : Kvnode) :
    ∃ node', kvblockSearch kv block 0 node = .ok (false, node') := by
  exact ⟨_, searchLoop_none _ _ _ _ fun j _ high => nothing j (by omega)⟩

theorem kvblockInit_none {mem : Nat} {rd : Nat → UInt8} (small : size < 65536)
    (bytes : ∀ j, kv.flash (mem + j) = rd j)
    (nothing : ∀ j < size, rd j ≠ nlByte ∧ (rd j = 0 → rwRejected rd size j = true)) :
    ∃ kv', kvblockInit kv i mem size = .ok kv' ∧ (kv'.blocks i).count = 0 := by
  obtain ⟨kv₁, calculated, count⟩ : ∃ kv₁, kvblockCalc (kv.setBlock i
      { kv.blocks i with size := u16 size, mem := mem }) i = .ok kv₁ ∧ (kv₁.blocks i).count = 0 := by
    unfold kvblockCalc
    rw [setBlock_self, setBlock_idem, u16_of_lt small]
    generalize block_eq : ({ kv.blocks i with
      mem := mem, size := size, kvSize := 0, dirtySize := 0, count := 0, roCount := 0 }) = block
    have mem_eq : block.mem = mem := by rw [← block_eq]
    have size_eq : block.size = size := by rw [← block_eq]
    have count_eq : block.count = 0 := by rw [← block_eq]
    have read_eq : (kv.setBlock i block).read block = rd := by
      funext o
      rw [Kvset.read, mem_eq]
      exact bytes o
    have search := kvblockSearch_none (by rw [read_eq, size_eq]; exact nothing) {}
    obtain ⟨node, search⟩ := search
    have iter : kvblockIter i true iterCalc (kv.setBlock i block) () =
        .ok (0, kv.setBlock i block, ()) := by
      unfold kvblockIter iterLoop
      rw [setBlock_self, search]
      rfl
    simp only [iter, bind, Except.bind]
    refine ⟨_, rfl, ?_⟩
    rw [setBlock_self, setBlock_self]
    exact count_eq
  unfold kvblockInit
  rw [calculated]
  simp only [bind, Except.bind, if_pos count]
  split
  · exact ⟨_, rfl, by rw [kvblockGc, setBlock_self]⟩
  · split
    · exact ⟨_, rfl, by rw [kvblockGc, setBlock_self]⟩
    · exact ⟨_, rfl, count⟩

@[irreducible] def longValue : List UInt8 := replicate 1024 1

def longBuffer : List UInt8 := nodeBytes [97] longValue 1 ++ [1]

theorem longBuffer_plain : ∀ b ∈ longBuffer.drop 3, b ≠ 0 ∧ b ≠ nlByte := by
  decide +kernel

theorem longValue_length : longValue.length = 1024 := by
  rw [longValue, length_replicate]

theorem footprint_longValue : footprint [97] longValue = 1036 := by
  rw [footprint, longValue_length]
  rfl

theorem kvblockSet_longValue :
    kvblockSet onesStack (erasedBlock 1044) 0 [97] longValue 1 =
      (some 0, appended 1044 (erasedBlock 1044) 0 [] 1036 longBuffer) := by
  have agrees := (erasedBlock_erased (show 1044 < 65536 by decide)).agrees (by decide)
  obtain ⟨padding, total, ones, computed⟩ := kvblockSet_eq agrees.placed agrees.record onesStack 1
    (show 0 < [97].length by decide) (by decide)
    (show longValue.length ≤ 0x3FFFF by rw [longValue_length]; decide)
    (by rw [footprint_longValue]; decide)
  rw [footprint_longValue] at total computed
  rw [length_append, nodeBytes_length, longValue_length] at total
  have one : padding.length = 1 := by
    rw [length_singleton] at total
    omega
  obtain ⟨b, rfl⟩ := length_eq_one_iff.mp one
  obtain ⟨j, rfl⟩ := ones b mem_cons_self
  exact computed

theorem longBuffer_read (j : Nat) :
    (appended 1044 (erasedBlock 1044) 0 [] 1036 longBuffer).flash (0 + j) = longBuffer.getD j blank := by
  simp only [appended, erasedBlock, logSize_nil]
  rcases Nat.lt_or_ge j longBuffer.length with inside | outside
  · rw [program_erased (by omega) (by omega) rfl]
    congr 1
    omega
  · rw [program_outside (by omega), getD_eq_default _ _ outside]

theorem longBuffer_behind (j : Nat) :
    longBuffer.getD (j + 3) blank ≠ 0 ∧ longBuffer.getD (j + 3) blank ≠ nlByte := by
  rcases Nat.lt_or_ge _ longBuffer.length with inside | outside
  · rw [getD_eq_getElem _ _ inside]
    apply longBuffer_plain
    rw [mem_drop_iff_getElem]
    exact ⟨j, by omega, by simp [Nat.add_comm]⟩
  · rw [getD_eq_default _ _ outside]
    decide

theorem longBuffer_rejected {j : Nat} (zero : longBuffer.getD j blank = 0) :
    rwRejected (fun o => longBuffer.getD o blank) 1044 j = true := by
  rcases Nat.lt_or_ge j 3 with header | behind
  · obtain rfl | rfl | rfl : j = 0 ∨ j = 1 ∨ j = 2 := by omega
    · exact absurd zero (by decide +kernel)
    · decide +kernel
    · decide +kernel
  · obtain ⟨k, rfl⟩ := Nat.exists_eq_add_of_le' behind
    exact absurd zero (longBuffer_behind k).1

/-- **A value of 1024 bytes is counted when it is written and not when it is read.** -/
theorem kvblockInit_forgets :
    ∃ s kv', Reaches (Run.step onesStack 0) (fun _ _ => True) ⟨erasedBlock 1044, []⟩ s ∧
      (s.kv.blocks 0).count = 1 ∧
      kvblockInit (s.kv.setBlock 0 { zeroBlock with id := 0 }) 0 0 1044 = .ok kv' ∧
      (kv'.blocks 0).count = 0 := by
  have nothing : ∀ j < 1044, longBuffer.getD j blank ≠ nlByte ∧ (longBuffer.getD j blank = 0 →
      rwRejected (fun o => longBuffer.getD o blank) 1044 j = true) := by
    refine fun j _ => ⟨?_, longBuffer_rejected⟩
    rcases Nat.lt_or_ge j 3 with header | behind
    · obtain rfl | rfl | rfl : j = 0 ∨ j = 1 ∨ j = 2 := by omega
      all_goals decide +kernel
    · obtain ⟨k, rfl⟩ := Nat.exists_eq_add_of_le' behind
      exact (longBuffer_behind k).2
  obtain ⟨kv', init, count⟩ : ∃ kv', kvblockInit ((appended 1044 _ 0 [] 1036
      longBuffer).setBlock 0 { zeroBlock with id := 0 }) 0 0 1044 = .ok kv' ∧
      (kv'.blocks 0).count = 0 :=
    kvblockInit_none (by decide) longBuffer_read nothing
  have counted : ((appended 1044 (erasedBlock 1044) 0 [] 1036 longBuffer).blocks 0).count = 1 := by
    rfl
  exact ⟨_, kv', .tail .refl trivial (Run.step_written kvblockSet_longValue), counted, init,
    count⟩

end Phy6212.Kv.BlockRun
