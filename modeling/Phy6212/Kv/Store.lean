import Phy6212.Kv.Block

/-!
# The key-value store

`kernel/fs/kv2/kvset.c` with its cache (`ENABLE_CACHE`), which maps the hash of a key to the place
of its node.
-/

namespace Phy6212.Kv

open NorFlash

def keyHash (str : List UInt8) : UInt32 :=
  str.foldl (fun hash c => (hash <<< 7) + (hash <<< 1) + hash + c.toUInt32) 0

def CacheNode.unused (cache : CacheNode) : Bool :=
  cache.offset = 0xFFFF && cache.blockId = 0xFFFF

/-- The first entry that is unused or already names the node. -/
def cacheSlot (cache : List CacheNode) (hash : UInt32) (blockId offset : Nat) : Option Nat :=
  cache.findIdx? fun c => c.unused || (c.hash = hash && c.blockId = blockId && c.offset = offset)

/-- `kv_cache_in`: 0, or -1 when the cache is full and the heap cannot provide a
larger one. -/
def kvCacheIn (env : Env) (kv : Kvset) (key : List UInt8) (blockId offset : Nat) : Int × Kvset :=
  let hash := keyHash key
  let entry : CacheNode := { hash := hash, blockId := u16 blockId, offset := u16 offset }
  match cacheSlot kv.cache hash blockId offset with
  | some slot => (0, { kv with cache := kv.cache.set slot entry })
  | none =>
    if env.cacheHeap (kv.cache.length + 1) then (0, { kv with cache := kv.cache ++ [entry] })
    else (-1, kv)

/-- `kv_cache_out`: the loop has no bound on its index, so it leaves the array
when no entry matches. -/
def kvCacheOut (kv : Kvset) (blockId offset : Nat) : Except Halt Kvset :=
  if kv.cache = [] then .ok kv
  else
    match kv.cache.findIdx? fun c => c.offset = offset && c.blockId = blockId with
    | some slot =>
      .ok { kv with
        cache := kv.cache.modify slot fun c => { c with blockId := 0xFFFF, offset := 0xFFFF } }
    | none => .error .overrun

def iterCacheNode (env : Env) (node : Kvnode) (kv : Kvset) (data : Unit) :
    Except Halt (Int × Kvset × Unit) :=
  if node.valid then
    let key := readString (kv.headOf node) (kv.num * (kv.blocks 0).size) 0
    let (ret, kv) := kvCacheIn env kv key (node.block.getD 0) node.headOffset
    .ok (ret, kv, data)
  else .ok (0, kv, data)

def kvIterFrom {δ : Type} (fn : Kvnode → Kvset → δ → Except Halt (Int × Kvset × δ)) :
    Nat → Nat → Int → Kvset → δ → Except Halt (Int × Kvset × δ)
  | 0, _, ret, kv, data => .ok (ret, kv, data)
  | left + 1, i, _, kv, data => do
      let (ret, kv, data) ← kvblockIter i false fn kv data
      if ret ≠ 0 then .ok (ret, kv, data) else kvIterFrom fn left (i + 1) ret kv data

def kvIter {δ : Type} (fn : Kvnode → Kvset → δ → Except Halt (Int × Kvset × δ)) (kv : Kvset)
    (data : δ) : Except Halt (Int × Kvset × δ) :=
  kvIterFrom fn kv.num 0 (-1) kv data

/-- The innermost loop of `kv_verify`: compare `node1` with the nodes of block `j` from offset
`next` on. -/
def verifyAgainst (node1 : Kvnode) (j : Nat) : Nat → Nat → Kvset → Except Halt (Bool × Kvset)
  | 0, _, _ => .error .spinning
  | rounds + 1, next, kv => do
      let (found, node2) ← kvblockSearch kv (kv.blocks j) next {}
      if found then
        if node2.valid then
          let (removed, kv') := kvblockCheckVersion kv node1 node2
          if removed = some .first then .ok (true, kv')
          else verifyAgainst node1 j rounds node2.nextOffset kv'
        else verifyAgainst node1 j rounds node2.nextOffset kv
      else .ok (false, kv)

def verifyBlocks (node1 : Kvnode) (i : Nat) : Nat → Nat → Kvset → Except Halt Kvset
  | 0, _, kv => .ok kv
  | left + 1, j, kv => do
      let (removed, kv) ← verifyAgainst node1 j ((kv.blocks j).size + 1)
        (if j = i then node1.nextOffset else 0) kv
      if removed then .ok kv else verifyBlocks node1 i left (j + 1) kv

def verifyBlock (i : Nat) : Nat → Nat → Kvset → Except Halt Kvset
  | 0, _, _ => .error .spinning
  | rounds + 1, next, kv => do
      let (found, node1) ← kvblockSearch kv (kv.blocks i) next {}
      if found then
        if node1.valid then
          let kv ← verifyBlocks node1 i (kv.num - i) i kv
          verifyBlock i rounds node1.nextOffset kv
        else verifyBlock i rounds node1.nextOffset kv
      else .ok kv

def verifyFrom : Nat → Nat → Kvset → Except Halt Kvset
  | 0, _, kv => .ok kv
  | left + 1, i, kv => do
      let kv ← verifyBlock i ((kv.blocks i).size + 1) 0 kv
      verifyFrom left (i + 1) kv

def kvVerify (kv : Kvset) : Except Halt Kvset := verifyFrom kv.num 0 kv

/-- The loop of `kv_init` over the blocks, from block `i` on, with the largest
free size seen. -/
def initBlocks (blockSize : Nat) : Nat → Nat → Nat → Kvset → Except Halt Kvset
  | 0, _, _, kv => .ok kv
  | left + 1, i, gcSize, kv => do
      let kv ← kvblockInit (kv.setBlock i { kv.blocks i with id := i }) i (i * blockSize) blockSize
      let v := kvblockFreeSize (kv.blocks i)
      if gcSize ≤ v ∧ 4 < v then
        initBlocks blockSize left (i + 1) v { kv with gcBid := some i }
      else if kv.bid = 0 then initBlocks blockSize left (i + 1) gcSize { kv with bid := i }
      else initBlocks blockSize left (i + 1) gcSize kv

def zeroBlock : Kvblock where
  id := 0
  mem := 0
  size := 0
  writeOffset := 0
  kvSize := 0
  dirtySize := 0
  count := 0
  roCount := 0

def kvInit (env : Env) (cachedSize : Nat) (flash : Mem) (blockNum blockSize : Nat) :
    Except Halt (Int × Kvset) := do
  let kv : Kvset :=
    { flash := flash, trace := [], num := blockNum, blocks := fun _ => zeroBlock, bid := 0,
      gcBid := none, cache := [] }
  if env.blocksHeap then
    let kv ← initBlocks blockSize blockNum 0 0 kv
    let kv ← kvVerify kv
    if env.cacheHeap cachedSize then
      let kv := { kv with
        cache := List.replicate cachedSize { hash := 0xFFFFFFFF, blockId := 0xFFFF, offset := 0xFFFF } }
      let (ret, kv, _) ← kvIter (iterCacheNode env) kv ()
      .ok (ret, kv)
    else .ok (-1, kv)
  else .ok (-1, kv)

def findLoop (kv : Kvset) (key : List UInt8) : List CacheNode → Kvnode → Except Halt (Bool × Kvnode)
  | [], node => .ok (false, node)
  | cache :: rest, node =>
    if cache.hash = keyHash key ∧ cache.blockId ≠ 0xFFFF ∧ cache.offset ≠ 0xFFFF then do
      let (_, node) ← kvblockSearch kv (kv.blocks cache.blockId) cache.offset node
      if kvnodeCmpName kv node key = 0 then .ok (true, node) else findLoop kv key rest node
    else findLoop kv key rest node

def kvFind (kv : Kvset) (key : List UInt8) (node : Kvnode) : Except Halt (Bool × Kvnode) :=
  findLoop kv key kv.cache node

/-- The loop over the blocks in `kv_find` without the cache, from block `i` on. -/
def scanLoop (kv : Kvset) (key : List UInt8) : Nat → Nat → Bool → Kvnode →
    Except Halt (Bool × Kvnode)
  | 0, _, found, node => .ok (found, node)
  | left + 1, i, found, node => do
      let (here, node) ← kvblockFind kv i key node
      if here ∧ node.rw then .ok (true, node) else scanLoop kv key left (i + 1) (found || here) node

def kvFindScan (kv : Kvset) (key : List UInt8) : Except Halt (Bool × Kvnode) :=
  scanLoop kv key kv.num 0 false {}

/-- `_kvblock_deep_gc`: copy a node into block `gc` and remove it. -/
def kvblockDeepGc (env : Env) (gc : Nat) (node : Kvnode) (kv : Kvset) (data : Unit) :
    Except Halt (Int × Kvset × Unit) :=
  if node.rw then
    let version := if node.version = 255 then 1 else node.version.toNat + 1
    let key := readString (kv.headOf node) (kv.num * (kv.blocks gc).size) 0
    let value := readBytes (kv.valueOf node) 0 node.valSize
    match kvblockSet env kv gc key value version with
    | (some _, kv) => .ok (0, kvnodeRm kv node, data)
    | (none, kv) => .ok (0, kv, data)
  else .ok (0, kv, data)

def minUsed (kv : Kvset) (gc : Nat) : Option Nat :=
  ((List.range kv.num).foldl
    (fun (best : Nat × Option Nat) i =>
      let block := kv.blocks i
      if block.roCount = 0 ∧ i ≠ gc ∧ 0 < block.kvSize ∧ block.kvSize < best.1 then
        (block.kvSize, some i)
      else best)
    ((kv.blocks gc).size - (kv.blocks gc).writeOffset, none)).2

def gcLoop (env : Env) (gc : Nat) : Nat → Option Nat → Kvset → Except Halt (Option Nat × Kvset)
  | 0, _, _ => .error .spinning
  | rounds + 1, newGc, kv =>
    match minUsed kv gc with
    | none => .ok (newGc, kv)
    | some i => do
        let (_, kv, _) ← kvblockIter i false (kvblockDeepGc env gc) kv ()
        gcLoop env gc rounds (if (kv.blocks i).count = 0 then some i else newGc) kv

/-- `kv_gc`: whether some block was emptied. Every round empties a block, so
there are at most as many as blocks. -/
def kvGc (env : Env) (kv : Kvset) : Except Halt (Bool × Kvset) :=
  match kv.gcBid with
  | none => .error .overrun
  | some gc => do
      let (newGc, kv) ← gcLoop env gc (kv.num + 1) none kv
      match newGc with
      | some i => .ok (true, { kv with gcBid := some i })
      | none => .ok (false, kv)

/-- The loop of `kv_set` over the blocks: where the node was written, or nothing
when the loop came back to the block it started from. -/
def placeLoop (env : Env) (key value : List UInt8) (version : Nat) (startBid : Nat) :
    Nat → Kvset → Except Halt (Option Nat × Kvset)
  | 0, _ => .error .spinning
  | rounds + 1, kv =>
    let (placed, kv) :=
      if (kv.blocks kv.bid).roCount = 0 ∧ some kv.bid ≠ kv.gcBid then
        kvblockSet env kv kv.bid key value version
      else (none, kv)
    match placed with
    | some offset => .ok (some offset, kv)
    | none =>
      let kv := { kv with bid := (kv.bid + 1) % kv.num }
      if kv.bid = startBid then .ok (none, kv)
      else placeLoop env key value version startBid rounds kv

/-- What `kv_set` does with the cache and the old node once the new node is
written. -/
def afterPlace (env : Env) (kv : Kvset) (key : List UInt8) (size : Nat) (old : Option Kvnode)
    (offset : Nat) : Except Halt (Int × Kvset) := do
  let kv ←
    match old with
    | some node => kvCacheOut (kvnodeRm kv node) (node.block.getD 0) node.headOffset
    | none => .ok kv
  let (ret, kv) := kvCacheIn env kv key kv.bid offset
  .ok (if ret ≠ 0 then ret else size, kv)

/-- The version that replaces one found: 255 is followed by 1. -/
def nextVersion (version : UInt8) : Nat := (if version = 255 then 0 else version.toNat) + 1

/-- `kv_set` from the label `start2` on, after garbage was collected. -/
def kvSetAgain (env : Env) (kv : Kvset) (key value : List UInt8) (version : Nat)
    (old : Option Kvnode) : Except Halt (Int × Kvset) := do
  let (placed, kv) ← placeLoop env key value version kv.bid kv.num kv
  match placed with
  | some offset => afterPlace env kv key value.length old offset
  | none => .ok (-1, kv)

/-- `kv_set`: the size of the value, or -1. -/
def kvSet (env : Env) (kv : Kvset) (key value : List UInt8) : Except Halt (Int × Kvset) :=
  if value.length = 0 ∨ 498 ≤ key.length + value.length then .ok (-1, kv)
  else do
    let (exists1, node1) ← kvFind kv key {}
    let version := if exists1 then nextVersion node1.version else 1
    let (placed, kv) ← placeLoop env key value version kv.bid kv.num kv
    match placed with
    | some offset =>
      afterPlace env kv key value.length (if exists1 then some node1 else none) offset
    | none => do
        let (collected, kv) ← kvGc env kv
        if collected then
          if exists1 then do
            let (exists2, node2) ← kvFind kv key node1
            if exists2 then kvSetAgain env kv key value (nextVersion node2.version) (some node2)
            else kvSetAgain env kv key value (version + 1) none
          else kvSetAgain env kv key value version none
        else .ok (-1, kv)

def kvRm (kv : Kvset) (key : List UInt8) : Except Halt (Int × Kvset) := do
  let (found, node) ← kvFind kv key {}
  if found then
    let kv ← kvCacheOut (kvnodeRm kv node) (node.block.getD 0) node.headOffset
    .ok (0, kv)
  else .ok (-1, kv)

def kvResetFrom : Nat → Nat → Kvset → Except Halt Kvset
  | 0, _, kv => .ok kv
  | left + 1, i, kv => do
      let kv ← kvblockReset kv i
      kvResetFrom left (i + 1) kv

def kvReset (kv : Kvset) : Except Halt (Int × Kvset) := do
  let kv ← kvResetFrom kv.num 0 kv
  .ok (0, kv)

def isspace (c : UInt8) : Bool := c = 0x20 || (0x09 ≤ c && c ≤ 0x0D)

def atoiDigits (rd : Nat → UInt8) : Nat → Nat → Int → Int
  | 0, _, acc => acc
  | bound + 1, i, acc =>
    if 0x30 ≤ rd i ∧ rd i ≤ 0x39 then
      atoiDigits rd bound (i + 1) (10 * acc + ((rd i).toNat - 0x30 : Nat))
    else acc

/-- `atoi` of the C library on the text at `rd`, over at most `bound` bytes. -/
def atoi (rd : Nat → UInt8) : Nat → Nat → Int
  | 0, _ => 0
  | bound + 1, i =>
    if isspace (rd i) then atoi rd bound (i + 1)
    else if rd i = 0x2D then -atoiDigits rd bound (i + 1) 0
    else if rd i = 0x2B then atoiDigits rd bound (i + 1) 0
    else atoiDigits rd (bound + 1) i 0

def intBytes (n : Int) : List UInt8 :=
  let u := (n % 4294967296).toNat
  [UInt8.ofNat u, UInt8.ofNat (u / 256), UInt8.ofNat (u / 65536), UInt8.ofNat (u / 16777216)]

abbrev quoteByte : UInt8 := 0x22

/-- The length of a quoted read-only value between its quotes. -/
def quotedSize (rd : Nat → UInt8) (valSize : Nat) : Int :=
  let ret := if rd (valSize - 1) = crByte then valSize - 1 else valSize
  let ret := if rd (ret - 1) = quoteByte then ret - 1 else ret
  (ret : Int) - 1

/-- `kv_get` with a buffer of `size` bytes: the length of the value, or -1, and
the bytes copied. -/
def kvGet (kv : Kvset) (key : List UInt8) (size : Nat) : Except Halt (Int × List UInt8) := do
  let (found, node) ← kvFind kv key {}
  if found then
    let value := kv.valueOf node
    if node.rw then .ok (node.valSize, readBytes value 0 (min node.valSize size))
    else if 0 < node.valSize then
      if value 0 = quoteByte then
        let ret := quotedSize value node.valSize
        -- a negative length reaches `memcpy` as a huge unsigned one
        if ret < 0 then .error .overrun
        else .ok (ret, readBytes value 1 (min ret.toNat size))
      else .ok (4, (intBytes (atoi value (kv.num * (kv.blocks 0).size) 0)).take size)
    else .ok (-1, [])
  else .ok (-1, [])

end Phy6212.Kv
