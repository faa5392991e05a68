import Phy6212.NorFlash.Memory

/-!
# The blocks of the key-value store

`kernel/fs/kv2/block.c` with the flash operations of `kv2.c`, for flash that is mapped into the
address space.
-/

namespace Phy6212.Kv

open NorFlash

/-- Why a call into the store does not come back. -/
inductive Halt where
  | assertion
  | spinning
  | overrun
  deriving DecidableEq, Repr

def u16 (n : Nat) : Nat := n % 65536

abbrev rwFlagSize : Nat := 5

abbrev eqByte : UInt8 := 0x3D

abbrev nlByte : UInt8 := 0x0A

abbrev crByte : UInt8 := 0x0D

def isprint (c : UInt8) : Bool := 0x20 ≤ c && c ≤ 0x7E

def align4 (x : Nat) : Nat := if x % 4 ≠ 0 then 4 - x % 4 + x else x

/-- The comparison loop of `keycmp` while `n` is not negative, from index `i`
of both strings on. -/
def keycmpLoop (s d : Nat → UInt8) : Nat → Nat → Int
  | i, 0 =>
    if s i ≠ 0 ∧ s i = d i then -1
    else if s i = 0 then 0
    else (s i).toNat - (d i).toNat
  | i, n + 1 =>
    if s i ≠ 0 ∧ s i = d i then keycmpLoop s d (i + 1) n
    else (s i).toNat - (d i).toNat

/-- `keycmp`: compare the string at `s` with the at most `n` bytes at `d`. -/
def keycmp (s d : Nat → UInt8) : Int → Int
  | .ofNat 0 => 0
  | .ofNat (n + 1) => keycmpLoop s d 0 (n + 1)
  | .negSucc _ =>
    if s 0 ≠ 0 ∧ s 0 = d 0 then -1 else (s 0).toNat - (d 0).toNat

/-- `struct kvblock`, without the pointers to its cache and to its store. -/
structure Kvblock where
  id : Nat
  mem : Nat
  size : Nat
  writeOffset : Nat
  kvSize : Nat
  dirtySize : Nat
  count : Nat
  roCount : Nat
  deriving DecidableEq, Repr

structure Kvnode where
  rw : Bool := false
  version : UInt8 := 0
  valSize : Nat := 0
  eraseFlag : Nat := 0
  headOffset : Nat := 0
  valueOffset : Nat := 0
  nextOffset : Nat := 0
  nodeSize : Nat := 0
  block : Option Nat := none
  deriving DecidableEq, Repr

def Kvnode.valid (node : Kvnode) : Bool := node.eraseFlag ≠ 0

structure CacheNode where
  hash : UInt32
  blockId : Nat
  offset : Nat
  deriving DecidableEq, Repr

/-- `struct kvset` together with the flash it works on. The number of cache
entries is the length of the cache. The trace records the flash operations
performed so far; the source does not keep it. -/
structure Kvset where
  flash : Mem
  trace : List Op
  num : Nat
  blocks : Nat → Kvblock
  bid : Nat
  gcBid : Option Nat
  cache : List CacheNode

/-- What a call takes from its surroundings: whether the heap can provide the
array of blocks and a cache of a given number of entries, and what the stack
holds where the buffer of the next node is laid out. The node buffers of a run
are told apart by the length of the trace. -/
structure Env where
  blocksHeap : Bool
  cacheHeap : Nat → Bool
  stack : Nat → Nat → UInt8

def Kvset.read (kv : Kvset) (block : Kvblock) (offset : Nat) : UInt8 :=
  kv.flash (block.mem + offset)

def Kvset.setBlock (kv : Kvset) (i : Nat) (block : Kvblock) : Kvset :=
  { kv with blocks := Function.update kv.blocks i block }

def readBytes (rd : Nat → UInt8) (offset count : Nat) : List UInt8 :=
  (List.range count).map fun i => rd (offset + i)

/-- The string at an offset: the bytes up to the first NUL, at most `bound`. -/
def readString (rd : Nat → UInt8) : Nat → Nat → List UInt8
  | 0, _ => []
  | bound + 1, offset =>
    if rd offset = 0 then [] else rd offset :: readString rd bound (offset + 1)

def word32 (rd : Nat → UInt8) (offset : Nat) : Nat :=
  (rd offset).toNat + 256 * (rd (offset + 1)).toNat + 65536 * (rd (offset + 2)).toNat
    + 16777216 * (rd (offset + 3)).toNat

/-- `kv_flash_write`: nothing is written past the end of the block. -/
def Kvset.flashWrite (kv : Kvset) (block : Kvblock) (pos : Nat) (data : List UInt8) : Kvset :=
  if pos + data.length ≤ block.size then
    { kv with
      flash := program kv.flash (block.id * block.size + pos) data
      trace := kv.trace ++ [.program (block.id * block.size + pos) data] }
  else kv

/-- `block_erase` through `kv_flash_erase`: one sector, which is the block. -/
def Kvset.flashErase (kv : Kvset) (block : Kvblock) : Kvset :=
  { kv with
    flash := erase kv.flash (block.id * block.size) block.size
    trace := kv.trace ++ [.erase (block.id * block.size) block.size] }

def kvblockGc (kv : Kvset) (i : Nat) : Kvset :=
  (kv.flashErase (kv.blocks i)).setBlock i
    { kv.blocks i with writeOffset := 0, kvSize := 0, dirtySize := 0, count := 0 }

/-- `kvnode_rm`: mark the node erased, or erase the block when it holds no other
node. -/
def kvnodeRm (kv : Kvset) (node : Kvnode) : Kvset :=
  match node.block with
  | none => kv
  | some i =>
    if node.valid ∧ node.rw then
      let block := kv.blocks i
      if block.count > block.roCount + 1 then
        (kv.flashWrite block (node.nextOffset - 4) [0, 0, 0, 0]).setBlock i
          { block with
            dirtySize := u16 (block.dirtySize + node.nodeSize)
            kvSize := u16 (block.kvSize + 65536 - node.nodeSize)
            count := u16 (block.count + 65535) }
      else kvblockGc kv i
    else kv

/-- `kvblock_alloc_node`: the start of the node and the block after it, when the
node fits. -/
def kvblockAllocNode (block : Kvblock) (size : Nat) : Option (Nat × Kvblock) :=
  if block.writeOffset + size + 4 ≤ block.size then
    some (block.writeOffset, { block with writeOffset := u16 (block.writeOffset + size) })
  else none

def sizeLo (size : Nat) : UInt8 := UInt8.ofNat ((size >>> 0) &&& 0xFF)

def sizeHi (len size : Nat) : UInt8 := UInt8.ofNat (((size >>> 8) &&& 0xFF) ||| (len <<< 2))

def nodeBytes (key value : List UInt8) (version : Nat) : List UInt8 :=
  key ++ [0, sizeLo value.length, sizeHi key.length value.length, UInt8.ofNat (version &&& 0xFF),
    eqByte] ++ value ++ [sizeHi key.length value.length]

/-- `kvblock_set`: write a node behind the last one. -/
def kvblockSet (env : Env) (kv : Kvset) (i : Nat) (key value : List UInt8) (version : Nat) :
    Option Nat × Kvset :=
  let len := key.length
  let size := value.length
  if len = 0 ∨ 0x3F < len ∨ 0x3FFFF < size then (none, kv)
  else
    let mallocSize := align4 (len + size + rwFlagSize + 1)
    let nodeSize := mallocSize + 4
    match kvblockAllocNode (kv.blocks i) nodeSize with
    | none => (none, kv)
    | some (offset, block) =>
      let used := nodeBytes key value version
      let padding := (List.range (mallocSize - used.length)).map (env.stack kv.trace.length)
      let buffer := used ++ padding
      let kv := (kv.setBlock i block).flashWrite block offset buffer
      if readBytes (kv.read block) offset mallocSize = buffer then
        (some offset, kv.setBlock i
          { block with kvSize := u16 (block.kvSize + nodeSize), count := u16 (block.count + 1) })
      else (none, kv.flashWrite block (offset + mallocSize) [0, 0, 0, 0])

def skipZeros (rd : Nat → UInt8) : Nat → Nat → Nat
  | 0, c => c
  | bound + 1, c => if rd c = 0 then skipZeros rd bound (c + 1) else c

def packedValueSize (rd : Nat → UInt8) (c : Nat) : Nat :=
  (rd (c + 1)).toNat ||| (((rd (c + 2)).toNat <<< 8) &&& 0x3FF)

def packedKeySize (rd : Nat → UInt8) (c : Nat) : Nat := (rd (c + 2)).toNat >>> 2

/-- The test that rejects a NUL byte as the end of a key. -/
def rwRejected (rd : Nat → UInt8) (size c : Nat) : Bool :=
  rd (c + 4) ≠ eqByte || size ≤ c + packedValueSize rd c || c < packedKeySize rd c ||
    rd (c + 2) ≠ rd (c + packedValueSize rd c + rwFlagSize)

def rwNode (rd : Nat → UInt8) (c : Nat) (node : Kvnode) : Kvnode :=
  let valueSize := packedValueSize rd c
  let keySize := packedKeySize rd c
  let nodeSize := u16 (align4 (keySize + valueSize + rwFlagSize + 1) + 4)
  { node with
    nodeSize := nodeSize
    version := rd (c + 3)
    valSize := valueSize
    eraseFlag := word32 rd (c - keySize + nodeSize - 4)
    rw := true
    headOffset := u16 (c - keySize)
    valueOffset := u16 (c + rwFlagSize)
    nextOffset := u16 (u16 (c - keySize) + nodeSize) }

def roNode (delim c : Nat) (node : Kvnode) : Kvnode :=
  { node with
    version := 0
    valSize := u16 (c - delim - 1)
    eraseFlag := 0xFFFF
    rw := false
    valueOffset := u16 (delim + 1)
    nextOffset := u16 (c + 1)
    nodeSize := u16 (u16 (c + 1) + 65536 - node.headOffset) }

def assertSize (size : Nat) (node : Kvnode) : Except Halt (Bool × Kvnode) :=
  if node.nodeSize < size then .ok (true, node) else .error .assertion

/-- The second loop of `kvblock_search`, with the number of bytes left before
the last one of the block. -/
def searchLoop (rd : Nat → UInt8) (size : Nat) :
    Nat → Nat → Option Nat → Kvnode → Except Halt (Bool × Kvnode)
  | 0, _, _, node => .ok (false, node)
  | left + 1, c, delim, node =>
    if rd c = 0 then
      if rwRejected rd size c then searchLoop rd size left (c + 1) delim node
      else assertSize size (rwNode rd c node)
    else if rd c = eqByte then searchLoop rd size left (c + 1) (some c) node
    else if rd c = nlByte then
      match delim with
      | some d => assertSize size (roNode d c node)
      | none => searchLoop rd size left (c + 1) none node
    else if rd c = crByte then searchLoop rd size left (c + 1) delim node
    else searchLoop rd size left (c + 1) (if isprint (rd c) then delim else none) node

def kvblockSearch (kv : Kvset) (block : Kvblock) (c : Nat) (node : Kvnode) :
    Except Halt (Bool × Kvnode) :=
  let start := skipZeros (kv.read block) (block.size - c) c
  searchLoop (kv.read block) block.size (block.size - 1 - start) start none
    { node with block := some block.id, headOffset := u16 start }

def Kvset.headOf (kv : Kvset) (node : Kvnode) (i : Nat) : UInt8 :=
  match node.block with
  | none => 0
  | some b => kv.read (kv.blocks b) (node.headOffset + i)

def Kvset.valueOf (kv : Kvset) (node : Kvnode) (i : Nat) : UInt8 :=
  match node.block with
  | none => 0
  | some b => kv.read (kv.blocks b) (node.valueOffset + i)

def Kvnode.keyBound (node : Kvnode) : Int := (node.valueOffset : Int) - node.headOffset - 1

def kvnodeCmpName (kv : Kvset) (node : Kvnode) (key : List UInt8) : Int :=
  keycmp (fun i => key.getD i 0) (kv.headOf node) node.keyBound

inductive Older where
  | first
  | second
  deriving DecidableEq, Repr

/-- The choice of the node to remove: the lower version, where 1 comes after
255. -/
def olderNode (version1 version2 : UInt8) : Option Older :=
  if version1 = 255 ∧ version2 = 1 then some .first
  else if version1 = 1 ∧ version2 = 255 then some .second
  else if version1 < version2 then some .first
  else if version2 < version1 then some .second
  else none

def kvblockCheckVersion (kv : Kvset) (node1 node2 : Kvnode) : Option Older × Kvset :=
  if keycmp (kv.headOf node1) (kv.headOf node2) node2.keyBound ≠ 0 then (none, kv)
  else
    match olderNode node1.version node2.version with
    | some .first => (some .first, kvnodeRm kv node1)
    | some .second => (some .second, kvnodeRm kv node2)
    | none => (none, kv)

def iterLoop {δ : Type} (i : Nat) (all : Bool)
    (fn : Kvnode → Kvset → δ → Except Halt (Int × Kvset × δ)) :
    Nat → Nat → Kvset → δ → Except Halt (Int × Kvset × δ)
  | 0, _, _, _ => .error .spinning
  | rounds + 1, next, kv, data => do
      let (found, node) ← kvblockSearch kv (kv.blocks i) next {}
      if found then
        if all || node.valid then
          let (ret, kv', data') ← fn node kv data
          if ret ≠ 0 then .ok (ret, kv', data')
          else iterLoop i all fn rounds node.nextOffset kv' data'
        else iterLoop i all fn rounds node.nextOffset kv data
      else .ok (0, kv, data)

/-- `kvblock_iter`. A search that succeeds moves forward, so a block has at most
as many rounds as bytes. -/
def kvblockIter {δ : Type} (i : Nat) (all : Bool)
    (fn : Kvnode → Kvset → δ → Except Halt (Int × Kvset × δ)) (kv : Kvset) (data : δ) :
    Except Halt (Int × Kvset × δ) :=
  iterLoop i all fn ((kv.blocks i).size + 1) 0 kv data

structure FindNode where
  count : Int
  found : Bool
  retNode : Kvnode
  deriving DecidableEq, Repr

def iterFind (key : List UInt8) (node : Kvnode) (kv : Kvset) (n : FindNode) :
    Except Halt (Int × Kvset × FindNode) :=
  if kvnodeCmpName kv node key = 0 then
    let n := { n with found := true, retNode := node }
    if node.rw then .ok (-1, kv, n)
    else .ok (if n.count - 1 > 0 then 0 else -1, kv, { n with count := n.count - 1 })
  else .ok (if n.count - 1 > 0 then 0 else -1, kv, { n with count := n.count - 1 })

def kvblockFind (kv : Kvset) (i : Nat) (key : List UInt8) (node : Kvnode) :
    Except Halt (Bool × Kvnode) := do
  let (_, _, n) ← kvblockIter i false (iterFind key) kv
    { count := (kv.blocks i).count, found := false, retNode := node }
  .ok (n.found, n.retNode)

def countNode (node : Kvnode) (block : Kvblock) : Kvblock :=
  let size := node.nextOffset + 65536 - node.headOffset
  if node.valid then
    { block with
      kvSize := u16 (block.kvSize + size)
      count := u16 (block.count + 1)
      roCount := if node.rw then block.roCount else u16 (block.roCount + 1)
      writeOffset := u16 (align4 node.nextOffset) }
  else
    { block with
      dirtySize := u16 (block.dirtySize + size)
      writeOffset := u16 (align4 node.nextOffset) }

def iterCalc (node : Kvnode) (kv : Kvset) (data : Unit) : Except Halt (Int × Kvset × Unit) :=
  match node.block with
  | none => .ok (0, kv, data)
  | some i => .ok (0, kv.setBlock i (countNode node (kv.blocks i)), data)

/-- The loop of `kvblock_calc` that moves the write offset behind the last word
below offset 508 that differs from the last word of the block. -/
def probeLoop (rd : Nat → UInt8) (magic : Nat) : Nat → Nat → Nat → Nat
  | 0, _, writeOffset => writeOffset
  | rounds + 1, v, writeOffset =>
    if v < 512 - 4 then
      probeLoop rd magic rounds (v + 4) (if word32 rd v ≠ magic then u16 (v + 4) else writeOffset)
    else writeOffset

/-- `kvblock_calc`: recompute the counters of a block from the flash. -/
def kvblockCalc (kv : Kvset) (i : Nat) : Except Halt Kvset := do
  let kv := kv.setBlock i { kv.blocks i with dirtySize := 0, kvSize := 0, count := 0, roCount := 0 }
  let (_, kv, _) ← kvblockIter i true iterCalc kv ()
  let block := kv.blocks i
  let magic := word32 (kv.read block) (block.size - 4)
  .ok (kv.setBlock i
    { block with
      writeOffset := probeLoop (kv.read block) magic 128 block.writeOffset block.writeOffset })

/-- `kvblock_init`: a block without a live node is erased unless it already is. -/
def kvblockInit (kv : Kvset) (i : Nat) (mem size : Nat) : Except Halt Kvset := do
  let kv ← kvblockCalc (kv.setBlock i { kv.blocks i with size := u16 size, mem := mem }) i
  let block := kv.blocks i
  if block.count = 0 then
    let v := fun j => word32 (kv.read block) (4 * j)
    if (List.range (block.size / 4)).any fun j => 1 ≤ j && v j != v 0 then .ok (kvblockGc kv i)
    else if v 0 = 0 then .ok (kvblockGc kv i)
    else .ok kv
  else .ok kv

def iterRmAllRwNode (node : Kvnode) (kv : Kvset) (data : Unit) : Except Halt (Int × Kvset × Unit) :=
  .ok (0, kvnodeRm kv node, data)

def kvblockReset (kv : Kvset) (i : Nat) : Except Halt Kvset := do
  let (_, kv, _) ← kvblockIter i false iterRmAllRwNode kv ()
  .ok kv

def kvblockFreeSize (block : Kvblock) : Nat := block.size - block.writeOffset

end Phy6212.Kv
