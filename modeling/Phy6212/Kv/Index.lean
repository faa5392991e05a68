import Phy6212.Kv.Nodes
import Phy6212.Kv.Session

/-!
# The cached lookup against the scan

`kv_find` looks only at nodes whose hash is that of the key; the scan compares all names.
-/

namespace Phy6212.Kv

open List NorFlash Runs

structure CString where
  bytes : List UInt8
  nonzero : ∀ b ∈ bytes, b ≠ 0

theorem CString.cstr (text : CString) : CStr (fun i => text.bytes.getD i 0) text.bytes where
  bytes i inside := by simp [inside]
  nul := by simp
  nonzero := text.nonzero

/-! ## The live nodes of a store -/

def liveNodes (kv : Kvset) (i : Nat) : List Kvnode :=
  match blockNodes kv i with
  | .ok nodes => nodes.filter Kvnode.valid
  | .error _ => []

def liveFrom (kv : Kvset) (i left : Nat) : List Kvnode :=
  (range' i left).flatMap (liveNodes kv)

def allNodes (kv : Kvset) : List Kvnode := liveFrom kv 0 kv.num

theorem liveFrom_succ (kv : Kvset) (i left : Nat) :
    liveFrom kv i (left + 1) = liveNodes kv i ++ liveFrom kv (i + 1) left := by
  simp [liveFrom, range'_succ]

variable {kv kv' : Kvset} {env : Env} {i : Nat} {spare entries : List CacheNode}
  {nodes : List Kvnode}

theorem mem_liveFrom {left : Nat} {n : Kvnode} :
    n ∈ liveFrom kv i left ↔ ∃ j, i ≤ j ∧ j < i + left ∧ n ∈ liveNodes kv j := by
  simp only [liveFrom, mem_flatMap, mem_range'_1]
  constructor
  · rintro ⟨j, ⟨low, high⟩, member⟩
    exact ⟨j, low, high, member⟩
  · rintro ⟨j, low, high, member⟩
    exact ⟨j, ⟨low, high⟩, member⟩

def named (kv : Kvset) (key : List UInt8) (node : Kvnode) : Bool := kvnodeCmpName kv node key = 0

/-- The string at the head of a node, as `_iter_cache_node` reads it. -/
def headString (kv : Kvset) (node : Kvnode) : List UInt8 :=
  readString (kv.headOf node) (kv.num * (kv.blocks 0).size) 0

/-- The string at the head of the node has the hash of the key. -/
def hashesLike (kv : Kvset) (key : List UInt8) (node : Kvnode) : Bool :=
  keyHash (headString kv node) = keyHash key

def entryOf (kv : Kvset) (node : Kvnode) : CacheNode where
  hash := keyHash (headString kv node)
  blockId := u16 (node.block.getD 0)
  offset := u16 node.headOffset

/-- The counters of the store are right, and every live writable node is found again by a
search from its own head. A store that only `kv_set` wrote is such a store; forged nodes
that overlap one another may not be. -/
def Regular (kv : Kvset) : Prop :=
  ∀ i < kv.num, (kv.blocks i).count = (liveNodes kv i).length ∧
    ∀ n ∈ liveNodes kv i, n.rw = true →
      kvblockSearch kv (kv.blocks i) n.headOffset {} = .ok (true, n)

instance (kv : Kvset) : Decidable (Regular kv) := by
  unfold Regular
  infer_instance

def SameAnswer (kv : Kvset) (key : List UInt8) : Prop :=
  match kvFind kv key {}, kvFindScan kv key with
  | .ok (true, node), .ok (true, node') => node = node'
  | .ok (false, _), .ok (false, _) => True
  | _, _ => False

instance (kv : Kvset) (key : List UInt8) : Decidable (SameAnswer kv key) := by
  unfold SameAnswer
  split <;> infer_instance

/-- When a writable node has the name, no read-only node of that name that stands before it is in
the cache under the hash of the key. -/
def Findable (kv : Kvset) (key : List UInt8) : Prop :=
  if (allNodes kv).any fun n => n.rw && named kv key n then
    ∀ n ∈ (allNodes kv).takeWhile (fun n => !(n.rw && named kv key n)),
      named kv key n = true → hashesLike kv key n = false
  else
    ((allNodes kv).filter (named kv key)).find? (hashesLike kv key) =
      ((allNodes kv).filter (named kv key)).getLast?

/-! ## Heads -/

variable {rd : Nat → UInt8} {size id c : Nat} {n : Kvnode}

theorem skipZeros_stop : ∀ {bound c : Nat}, skipZeros rd bound c < c + bound →
    rd (skipZeros rd bound c) ≠ 0
  | 0, c, less => by
    simp only [skipZeros] at less
    omega
  | bound + 1, c, less => by
    unfold skipZeros at less ⊢
    split at less
    · next zero =>
      rw [if_pos zero]
      exact skipZeros_stop (by omega)
    · next nonzero =>
      rw [if_neg nonzero]
      exact nonzero

theorem searchAt_ro_head (small : size < 65536) (ok : searchAt rd size id c {} = .ok (true, n))
    (readOnly : n.rw = false) :
    n.headOffset = searchStart rd size c ∧ searchStart rd size n.headOffset = n.headOffset ∧
      n.headOffset < size := by
  have inside : searchStart rd size c + 1 < size ∧ n.headOffset = u16 (searchStart rd size c) := by
    cases searchLoop_hit ok with
    | rw low high nul accepted => cases readOnly
    | ro low high line => exact ⟨by omega, rfl⟩
  have head : n.headOffset = searchStart rd size c := by
    rw [inside.2, u16_of_lt (by omega)]
  have nonzero : rd (searchStart rd size c) ≠ 0 := by
    apply skipZeros_stop
    have := inside.1
    unfold searchStart at this
    omega
  rw [head]
  exact ⟨rfl, skipZeros_of_ne nonzero, by omega⟩

theorem searchAt_again_ro (small : size < 65536) (ok : searchAt rd size id c {} = .ok (true, n))
    (readOnly : n.rw = false) : searchAt rd size id n.headOffset {} = .ok (true, n) := by
  obtain ⟨head, same, -⟩ := searchAt_ro_head small ok readOnly
  unfold searchAt at ok ⊢
  rw [same, head]
  exact ok

theorem exists_cstr {s : Nat → UInt8} : ∀ {k : Nat}, s k = 0 →
    ∃ text : List UInt8, CStr s text ∧ text.length ≤ k := by
  intro k nul
  induction k generalizing s with
  | zero => exact ⟨[], ⟨fun i inside => by simp at inside, nul, by simp⟩, Nat.le_refl _⟩
  | succ k ih =>
    by_cases first : s 0 = 0
    · exact ⟨[], ⟨fun i inside => by simp at inside, first, by simp⟩, Nat.zero_le _⟩
    obtain ⟨text, str, short⟩ := ih (s := fun i => s (i + 1)) nul
    refine ⟨s 0 :: text, ⟨?_, str.nul, ?_⟩, by simpa using short⟩
    · intro i inside
      cases i with
      | zero => rfl
      | succ i => exact str.bytes i (by simpa using inside)
    intro b member
    rcases mem_cons.mp member with rfl | later
    · exact first
    · exact str.nonzero b later

theorem searchAt_rw (small : size < 65536) (words : size % 4 = 0)
    (ok : searchAt rd size id c {} = .ok (true, n)) (writable : n.rw = true) :
    ∃ k, rd (n.headOffset + k) = 0 ∧ k < size ∧ n.keyBound = ((k + 4 : Nat) : Int) ∧
      n.headOffset < size := by
  cases searchLoop_hit ok with
  | ro low high line => cases writable
  | @rw e low high nul accepted =>
    have fits : packedKeySize rd e ≤ e := by
      simp [rwRejected] at accepted
      omega
    have head : u16 _ = e - packedKeySize rd e := u16_of_lt (by omega)
    have value : u16 (e + rwFlagSize) = e + 5 := u16_of_lt (by simp only [rwFlagSize]; omega)
    refine ⟨packedKeySize rd e, ?_, by omega, ?_, ?_⟩
    · simp only [rwNode, head, Nat.sub_add_cancel fits, nul]
    · simp only [Kvnode.keyBound, rwNode, head, value]
      omega
    · simp only [rwNode, head]
      omega

/-! ## Filling the cache -/

def OnlyCache (kv kv' : Kvset) : Prop := kv' = { kv with cache := kv'.cache }

/-- The used entries of the cache stand before the unused ones, and a search among them
finds what a search of the given list finds. -/
def Filled (entries cache : List CacheNode) : Prop :=
  ∃ used spare, cache = used ++ spare ∧ (∀ c ∈ used, c.unused = false) ∧
    (∀ c ∈ spare, c.unused = true) ∧ ∀ p : CacheNode → Bool, used.find? p = entries.find? p

theorem Filled.known {cache : List CacheNode} {e : CacheNode} (filled : Filled entries cache)
    (member : e ∈ cache) (inUse : e.unused = false) : Filled (entries ++ [e]) cache := by
  obtain ⟨used, spare, rfl, front, back, finds⟩ := filled
  refine ⟨used, spare, rfl, front, back, fun p => ?_⟩
  have among : e ∈ used := by
    rcases mem_append.mp member with here | there
    · exact here
    · rw [back e there] at inUse
      cases inUse
  rw [find?_append, ← finds p]
  cases first : used.find? p with
  | some c => rfl
  | none =>
    have fails := find?_eq_none.mp first e among
    simp [fails]

theorem Filled.add {used rest : List CacheNode} {e : CacheNode}
    (front : ∀ c ∈ used, c.unused = false) (back : ∀ c ∈ spare, c.unused = true)
    (finds : ∀ p : CacheNode → Bool, used.find? p = entries.find? p) (inUse : e.unused = false)
    (part : ∀ c ∈ rest, c ∈ spare) : Filled (entries ++ [e]) (used ++ e :: rest) := by
  refine ⟨used ++ [e], rest, by simp, ?_, fun c member => back c (part c member), fun p => ?_⟩
  · intro c member
    rcases mem_append.mp member with old | new
    · exact front c old
    · rw [mem_singleton.mp new]
      exact inUse
  · rw [find?_append, find?_append, finds p]

variable {key : List UInt8} {α : Type}

theorem split_at_spare {p : α → Bool} {used spare before after : List α} {a : α}
    (equal : used ++ spare = before ++ a :: after) (front : ∀ c ∈ used, p c = false)
    (back : ∀ c ∈ spare, p c = true) (here : p a = true) (earlier : ∀ c ∈ before, p c = false) :
    before = used ∧ spare = a :: after := by
  rcases append_eq_append_iff.mp equal with ⟨more, rfl, rest⟩ | ⟨more, rfl, rest⟩
  · cases more with
    | nil => exact ⟨by simp, by simpa using rest⟩
    | cons c more =>
      have member : c ∈ spare := by
        rw [rest]
        simp
      have low := earlier c (by simp)
      rw [back c member] at low
      cases low
  cases more with
  | nil => exact ⟨by simp, by simpa using rest.symm⟩
  | cons c more =>
    obtain ⟨rfl, -⟩ := List.cons.inj rest
    have low := front a (by simp)
    rw [here] at low
    cases low

theorem kvCacheIn_filled {b o : Nat} (filled : Filled entries kv.cache) (low : b < 65535)
    (small : o < 65536) (ok : kvCacheIn env kv key b o = (0, kv')) :
    Filled (entries ++ [⟨keyHash key, u16 b, u16 o⟩]) kv'.cache ∧ OnlyCache kv kv' := by
  have block : u16 b = b := u16_of_lt (by omega)
  have offset : u16 o = o := u16_of_lt small
  have inUse : (CacheNode.mk (keyHash key) b o).unused = false := by
    simp only [CacheNode.unused, Bool.and_eq_false_iff, decide_eq_false_iff_not]
    right
    omega
  unfold kvCacheIn at ok
  rw [block, offset] at ok ⊢
  simp only at ok
  split at ok
  · next slot found =>
    cases ok
    refine ⟨?_, rfl⟩
    obtain ⟨before, c, after, split, rfl, here, earlier⟩ := findIdx?_split found
    have placed : (before ++ c :: after).set before.length ⟨keyHash key, b, o⟩ =
        before ++ ⟨keyHash key, b, o⟩ :: after := by simp
    simp only [split, placed]
    by_cases spareSlot : c.unused = true
    · obtain ⟨used, spare, whole, front, back, finds⟩ := filled
      have different : ∀ d ∈ before, d.unused = false := by
        intro d member
        have fails := earlier d member
        simp only [Bool.or_eq_false_iff] at fails
        exact fails.1
      rw [whole] at split
      obtain ⟨rfl, rfl⟩ := split_at_spare split front back spareSlot different
      exact Filled.add front back finds inUse (fun d member => mem_cons_of_mem _ member)
    have same : c = ⟨keyHash key, b, o⟩ := by
      cases c
      simp_all
    subst same
    rw [split] at filled
    exact filled.known (by simp) inUse
  · next missing =>
    split at ok
    · cases ok
      refine ⟨?_, rfl⟩
      obtain ⟨used, spare, whole, front, back, finds⟩ := filled
      have none_spare : spare = [] := by
        cases spare with
        | nil => rfl
        | cons c spare =>
          have fails := findIdx?_eq_none_iff.mp missing c (by rw [whole]; simp)
          simp [back] at fails
      subst none_spare
      simp only [whole, append_nil]
      exact Filled.add front back finds inUse (by simp)
    · cases ok

theorem OnlyCache.trans {kv'' : Kvset} (first : OnlyCache kv kv') (second : OnlyCache kv' kv'') :
    OnlyCache kv kv'' := by
  unfold OnlyCache at *
  rw [second, first]

section

variable (only : OnlyCache kv kv')

include only

theorem OnlyCache.headString (node : Kvnode) : Kv.headString kv' node = Kv.headString kv node := by
  rw [only]
  rfl

theorem OnlyCache.entryOf : Kv.entryOf kv' = Kv.entryOf kv := by
  funext node
  simp only [Kv.entryOf, only.headString]

theorem OnlyCache.liveNodes : Kv.liveNodes kv' = Kv.liveNodes kv := by
  rw [only]
  rfl

theorem OnlyCache.view (i : Nat) : SameView i kv kv' := by
  rw [only]
  exact ⟨rfl, rfl, rfl, rfl⟩

end

theorem kvCacheIn_only (env : Env) (kv : Kvset) (key : List UInt8) (b o : Nat) :
    OnlyCache kv (kvCacheIn env kv key b o).2 := by
  unfold kvCacheIn
  simp only
  split
  · rfl
  · split <;> rfl

theorem iterCacheNode_only {node : Kvnode} {data : Unit} {r : Int × Kvset × Unit}
    (called : iterCacheNode env node kv data = .ok r) : OnlyCache kv r.2.1 := by
  unfold iterCacheNode at called
  split at called
  · cases called
    exact kvCacheIn_only env kv _ _ _
  · cases called
    rfl

theorem nodesFrom_head {rounds next : Nat} (ok : nodesFrom rd size id rounds next = .ok nodes) :
    ∀ n ∈ nodes, n.headOffset < 65536 := by
  intro n member
  obtain ⟨c, search⟩ := nodesFrom_found ok n member
  cases searchLoop_hit search with
  | rw low high nul accepted => exact Nat.mod_lt _ (by decide)
  | ro low high line => exact Nat.mod_lt _ (by decide)

theorem walk_iterCacheNode (low : i < 65535) :
    ∀ (nodes : List Kvnode) (kv kv' : Kvset) (entries : List CacheNode),
      (∀ n ∈ nodes, n.valid = true ∧ n.block = some i ∧ n.headOffset < 65536) →
      Filled entries kv.cache → walk (iterCacheNode env) nodes kv () = .ok (0, kv', ()) →
      Filled (entries ++ nodes.map (entryOf kv)) kv'.cache ∧ OnlyCache kv kv'
  | [], kv, kv', entries, _, filled, ok => by
    cases ok
    exact ⟨by simpa using filled, rfl⟩
  | node :: rest, kv, kv', entries, nodes, filled, ok => by
    obtain ⟨valid, block, small⟩ := nodes node mem_cons_self
    simp only [walk, iterCacheNode, valid, if_true, block, Option.getD_some, bind,
      Except.bind] at ok
    cases entered : kvCacheIn env kv
        (readString (kv.headOf node) (kv.num * (kv.blocks 0).size) 0) i node.headOffset with
    | mk ret kv₁ =>
      simp only [entered] at ok
      split at ok
      · next stopped =>
        cases ok
        exact absurd rfl stopped
      rename_i goes
      have zero : ret = 0 := by simpa using goes
      subst zero
      obtain ⟨filled₁, only₁⟩ := kvCacheIn_filled filled low small entered
      obtain ⟨filled₂, only₂⟩ := walk_iterCacheNode low rest kv₁ kv' _
        (fun n member => nodes n (mem_cons_of_mem _ member)) filled₁ ok
      refine ⟨?_, only₁.trans only₂⟩
      have first : entryOf kv node = ⟨keyHash (headString kv node), u16 i,
          u16 node.headOffset⟩ := by
        simp only [entryOf, block, Option.getD_some]
      rw [only₁.entryOf, append_assoc] at filled₂
      rw [map_cons, first]
      exact filled₂

theorem liveNodes_eq (ok : blockNodes kv i = .ok nodes) :
    liveNodes kv i = nodes.filter Kvnode.valid := by
  simp only [liveNodes, ok]

theorem kvIterFrom_filled {g : Geometry} :
    ∀ (left i : Nat) (ret : Int) (kv kv' : Kvset) (entries : List CacheNode), i + left = g.num →
      Shaped g g.num kv → Filled entries kv.cache →
      kvIterFrom (iterCacheNode env) left i ret kv () = .ok (0, kv', ()) →
      Filled (entries ++ (liveFrom kv i left).map (entryOf kv)) kv'.cache ∧ OnlyCache kv kv' ∧
        ∀ j, i ≤ j → j < g.num → ∃ nodes, blockNodes kv j = .ok nodes
  | 0, i, ret, kv, kv', entries, total, shaped, filled, ok => by
    cases ok
    refine ⟨by simpa [liveFrom] using filled, rfl, ?_⟩
    intro j low high
    omega
  | left + 1, i, ret, kv, kv', entries, total, shaped, filled, ok => by
    unfold kvIterFrom at ok
    have keeps : ∀ node kv data r, iterCacheNode env node kv data = .ok r →
        SameView i kv r.2.1 := fun _ _ _ _ called => (iterCacheNode_only called).view i
    cases iterated : kvblockIter i false (iterCacheNode env) kv () with
    | error e => simp [iterated, bind, Except.bind] at ok
    | ok result =>
      obtain ⟨ret₁, kv₁, data⟩ := result
      simp only [iterated, bind, Except.bind] at ok
      split at ok
      · next stopped =>
        cases ok
        exact absurd rfl stopped
      rename_i goes
      have zero : ret₁ = 0 := by simpa using goes
      subst zero
      have within : i < g.num := by omega
      have few := g.num_le
      obtain ⟨nodes, listed⟩ := nodesFrom_of_iterLoop keeps iterated
      have here : blockNodes kv i = .ok nodes := listed
      have walked : walk (iterCacheNode env) (nodes.filter Kvnode.valid) kv () =
          .ok (0, kv₁, ()) := by
        have equal : kvblockIter i false _ kv () = _ :=
          iterLoop_eq_walk keeps listed
        rw [iterated] at equal
        simpa using equal.symm
      have facts : ∀ n ∈ nodes.filter Kvnode.valid,
          n.valid = true ∧ n.block = some i ∧ n.headOffset < 65536 := by
        intro n member
        obtain ⟨inside, valid⟩ := mem_filter.mp member
        obtain ⟨c, search⟩ := nodesFrom_found listed n inside
        refine ⟨valid, ?_, nodesFrom_head listed n inside⟩
        rw [searchAt_block search, shaped.id i within]
      obtain ⟨filled₁, only₁⟩ :=
        walk_iterCacheNode (by omega) _ kv kv₁ entries facts filled walked
      have shaped₁ : Shaped g g.num kv₁ := by
        rw [only₁]
        exact { shaped with }
      obtain ⟨filled₂, only₂, later⟩ :=
        kvIterFrom_filled left _ 0 kv₁ kv' _ (by omega) shaped₁ filled₁ ok
      have same : liveFrom kv₁ (i + 1) left = liveFrom kv (i + 1) left := by
        simp only [liveFrom, only₁.liveNodes]
      refine ⟨?_, only₁.trans only₂, ?_⟩
      · rw [liveFrom_succ, liveNodes_eq here, map_append, ← append_assoc, ← same,
          ← only₁.entryOf]
        rw [← only₁.entryOf] at filled₂
        exact filled₂
      intro j low high
      rcases Nat.eq_or_lt_of_le low with rfl | above
      · exact ⟨nodes, here⟩
      · obtain ⟨nodes', there⟩ := later j above high
        rw [only₁] at there
        exact ⟨nodes', there⟩

structure Listed (g : Geometry) (kv : Kvset) : Prop where
  shaped : Shaped g g.num kv
  filled : Filled ((allNodes kv).map (entryOf kv)) kv.cache
  blocks : ∀ i < g.num, ∃ nodes, blockNodes kv i = .ok nodes

theorem kvInit_listed {g : Geometry} {cachedSize : Nat} {flash : Mem}
    (ok : kvInit env cachedSize flash g.num g.size = .ok (0, kv)) : Listed g kv := by
  unfold kvInit at ok
  split at ok
  · cases initialised : initBlocks g.size g.num 0 0
        { flash := flash, trace := [], num := g.num, blocks := fun _ => zeroBlock, bid := 0,
          gcBid := none, cache := [] } with
    | error e => simp [initialised, bind, Except.bind] at ok
    | ok kv₁ =>
      have shaped₁ : Shaped g g.num kv₁ :=
        (initBlocks_shaped g.num 0 0 _ (by omega)
          ⟨rfl, fun _ below => by omega, fun _ below => by omega, fun _ below => by omega⟩).ok
          initialised
      simp only [initialised, bind, Except.bind] at ok
      cases verified : kvVerify kv₁ with
      | error e => simp [verified] at ok
      | ok kv₂ =>
        have shaped₂ : Shaped g g.num kv₂ := ((removing_shaped g).verify shaped₁).ok verified
        simp only [verified] at ok
        split at ok
        · generalize start : ({ kv₂ with
            cache := replicate cachedSize ⟨0xFFFFFFFF, 0xFFFF, 0xFFFF⟩ }) = kv₃ at ok
          have shaped₃ : Shaped g g.num kv₃ := by
            rw [← start]
            exact { shaped₂ with }
          have empty : Filled [] kv₃.cache := by
            rw [← start]
            refine ⟨[], _, rfl, by simp, ?_, by simp⟩
            intro c member
            rw [(mem_replicate.mp member).2]
            rfl
          cases indexed : kvIter (iterCacheNode env) kv₃ () with
          | error e => simp [indexed] at ok
          | ok result =>
            obtain ⟨ret, kv₄, data⟩ := result
            simp only [indexed] at ok
            cases ok
            unfold kvIter at indexed
            rw [shaped₃.num] at indexed
            obtain ⟨filled, only, listed⟩ :=
              kvIterFrom_filled g.num 0 _ kv₃ kv [] (by omega) shaped₃ empty indexed
            have same : allNodes kv = allNodes kv₃ := by
              unfold allNodes liveFrom
              rw [only.liveNodes, only]
            refine ⟨?_, ?_, ?_⟩
            · rw [only]
              exact { shaped₃ with }
            · rw [same, only.entryOf, allNodes, shaped₃.num]
              simpa using filled
            intro i within
            obtain ⟨nodes, here⟩ := listed i (Nat.zero_le _) within
            refine ⟨nodes, ?_⟩
            rw [only]
            exact here
        · cases ok
  · cases ok

/-! ## The cached lookup -/

def locate (kv : Kvset) (e : CacheNode) : Kvnode :=
  match kvblockSearch kv (kv.blocks e.blockId) e.offset {} with
  | .ok (_, node) => node
  | .error _ => {}

def hits (kv : Kvset) (key : List UInt8) (e : CacheNode) : Bool :=
  e.hash = keyHash key && named kv key (locate kv e)

def Locatable (kv : Kvset) (e : CacheNode) : Prop :=
  e.blockId ≠ 0xFFFF ∧ e.offset ≠ 0xFFFF ∧
    ∃ node, kvblockSearch kv (kv.blocks e.blockId) e.offset {} = .ok (true, node)

theorem findLoop_spare : ∀ {spare : List CacheNode},
    (∀ c ∈ spare, c.unused = true) → ∀ node, findLoop kv key spare node = .ok (false, node)
  | [], _, _ => rfl
  | c :: spare, unused, node => by
    have skipped := (unused_iff.mp (unused c mem_cons_self)).2
    rw [findLoop, if_neg (by simp [skipped])]
    exact findLoop_spare (fun d member => unused d (mem_cons_of_mem _ member)) node

theorem findLoop_eq (key : List UInt8) (unused : ∀ c ∈ spare, c.unused = true) :
    ∀ (used : List CacheNode) (node : Kvnode),
    (∀ e ∈ used, Locatable kv e) →
    match used.find? (hits kv key) with
    | some e => findLoop kv key (used ++ spare) node = .ok (true, locate kv e)
    | none => ∃ stale, findLoop kv key (used ++ spare) node = .ok (false, stale)
  | [], node, _ => ⟨node, findLoop_spare unused node⟩
  | e :: used, node, locatable => by
    obtain ⟨block, offset, n, search⟩ := locatable e mem_cons_self
    have later := fun node => findLoop_eq key unused used node
      (fun d member => locatable d (mem_cons_of_mem _ member))
    have located : locate kv e = n := by simp only [locate, search]
    have again : kvblockSearch kv (kv.blocks e.blockId) e.offset node = .ok (true, n) := by
      exact searchAt_found node search
    rw [cons_append, findLoop]
    by_cases hash : e.hash = keyHash key
    · rw [if_pos ⟨hash, block, offset⟩]
      simp only [again, bind, Except.bind]
      by_cases name : kvnodeCmpName kv n key = 0
      · rw [find?_cons_of_pos (by simp [hits, hash, located, named, name]), if_pos name]
        simp only [located]
      · rw [find?_cons_of_neg (by simp [hits, located, named, name]), if_neg name]
        exact later n
    · rw [find?_cons_of_neg (by simp [hits, hash]), if_neg (fun h => hash h.1)]
      exact later node

theorem find?_congr_mem {p q : α → Bool} : ∀ {l : List α}, (∀ a ∈ l, p a = q a) →
    l.find? p = l.find? q
  | [], _ => rfl
  | a :: l, same => by
    have rest : l.find? p = l.find? q :=
      find?_congr_mem fun b member => same b (mem_cons_of_mem _ member)
    rw [find?_cons, find?_cons, same a mem_cons_self, rest]

variable {g : Geometry} {kv : Kvset}

section

variable (listing : Listed g kv)

include listing

theorem Listed.searched (within : i < g.num) (member : n ∈ liveNodes kv i) :
    ∃ c, searchAt (blockBytes g kv.flash i) g.size i c {} = .ok (true, n) := by
  obtain ⟨nodes, listed⟩ := listing.blocks i within
  rw [liveNodes_eq listed] at member
  obtain ⟨c, search⟩ := nodesFrom_found listed n (mem_filter.mp member).1
  refine ⟨c, ?_⟩
  rw [listing.shaped.read within, listing.shaped.size i within,
    listing.shaped.id i within] at search
  exact search

theorem Listed.mem_allNodes : n ∈ allNodes kv ↔ ∃ i < g.num, n ∈ liveNodes kv i := by
  unfold allNodes
  rw [mem_liveFrom, listing.shaped.num]
  constructor
  · rintro ⟨i, -, high, member⟩
    exact ⟨i, by omega, member⟩
  · rintro ⟨i, high, member⟩
    exact ⟨i, by omega, by omega, member⟩

theorem Listed.again (regular : Regular kv) (within : i < g.num) (member : n ∈ liveNodes kv i) :
    kvblockSearch kv (kv.blocks i) n.headOffset {} = .ok (true, n) := by
  have small := g.small
  cases writable : n.rw with
  | true => exact (regular i (by rw [listing.shaped.num]; exact within)).2 n member writable
  | false =>
    obtain ⟨c, search⟩ := listing.searched within member
    rw [listing.shaped.search within]
    exact searchAt_again_ro small search writable

theorem Listed.head_lt (within : i < g.num) (member : n ∈ liveNodes kv i) :
    n.headOffset < g.size := by
  have small := g.small
  obtain ⟨c, search⟩ := listing.searched within member
  cases searchLoop_hit search with
  | @rw e low high nul accepted =>
    show u16 _ < g.size
    rw [u16_of_lt (by omega)]
    omega
  | ro low high line =>
    show u16 _ < g.size
    rw [u16_of_lt (by omega)]
    omega

theorem Listed.entry (regular : Regular kv) (member : n ∈ allNodes kv) :
    Locatable kv (entryOf kv n) ∧ locate kv (entryOf kv n) = n := by
  obtain ⟨i, within, live⟩ := listing.mem_allNodes.mp member
  obtain ⟨c, search⟩ := listing.searched within live
  have few := g.num_le
  have large := g.small
  have head := listing.head_lt within live
  have again := listing.again regular within live
  have block : (entryOf kv n).blockId = i := by
    simp only [entryOf, searchAt_block search, Option.getD_some]
    exact u16_of_lt (by omega)
  have offset : (entryOf kv n).offset = n.headOffset := u16_of_lt (by omega)
  rw [← block, ← offset] at again
  refine ⟨⟨by omega, by omega, n, again⟩, ?_⟩
  simp only [locate, again]

theorem Listed.kvFind_eq (regular : Regular kv) (key : List UInt8) (node : Kvnode) :
    match (allNodes kv).find? (fun n => hashesLike kv key n && named kv key n) with
    | some n => kvFind kv key node = .ok (true, n)
    | none => ∃ stale, kvFind kv key node = .ok (false, stale) := by
  obtain ⟨used, spare, cache, front, back, finds⟩ := listing.filled
  have located : ∀ e ∈ used, Locatable kv e := by
    intro e member
    have among : ((allNodes kv).map (entryOf kv)).find? (fun c => decide (c = e)) ≠ none := by
      rw [← finds, ne_eq, find?_eq_none]
      intro fails
      simpa using fails e member
    obtain ⟨c, found⟩ := Option.ne_none_iff_exists'.mp among
    have same : c = e := by simpa using find?_some found
    obtain ⟨n, live, rfl⟩ := mem_map.mp (mem_of_find?_eq_some found)
    rw [← same]
    exact (listing.entry regular live).1
  have outcome := findLoop_eq key back used node located
  have same : (allNodes kv).find? (fun n => hashesLike kv key n && named kv key n) =
      (allNodes kv).find? (hits kv key ∘ entryOf kv) := by
    apply find?_congr_mem
    intro n member
    simp only [Function.comp, hits, hashesLike, (listing.entry regular member).2]
    rfl
  rw [finds, find?_map, ← same] at outcome
  unfold kvFind
  rw [cache]
  cases first : (allNodes kv).find? _ with
  | none =>
    rw [first] at outcome
    exact outcome
  | some n =>
    rw [first] at outcome
    have live := mem_of_find?_eq_some first
    simp only [Option.map_some, (listing.entry regular live).2] at outcome
    exact outcome

end

/-! ## The scan -/

/-- The node that the scan is after: the first writable one of the name, or else the last
read-only one. -/
def preferred (kv : Kvset) (key : List UInt8) (nodes : List Kvnode) : Option Kvnode :=
  (nodes.find? fun n => n.rw && named kv key n).or (nodes.filter (named kv key)).getLast?

theorem preferred_cons (key : List UInt8) (n : Kvnode) (rest : List Kvnode) :
    preferred kv key (n :: rest) =
      if named kv key n then
        if n.rw then some n else (preferred kv key rest).or (some n)
      else preferred kv key rest := by
  unfold preferred
  by_cases name : named kv key n = true
  · by_cases writable : n.rw = true
    · simp [name, writable]
    rw [if_pos name, if_neg writable, find?_cons_of_neg (by simp [writable]),
      filter_cons_of_pos name, getLast?_cons, Option.or_assoc]
    congr 1
    cases (rest.filter _).getLast? <;> rfl
  · rw [if_neg name, find?_cons_of_neg (by simp [name]), filter_cons_of_neg name]

theorem preferred_append_rw (later : List Kvnode) (writable : n.rw = true) :
    ∀ {nodes : List Kvnode}, preferred kv key nodes = some n →
      preferred kv key (nodes ++ later) = some n
  | [], found => by cases found
  | m :: nodes, found => by
    rw [preferred_cons] at found
    rw [cons_append, preferred_cons]
    split at found
    · next name =>
      rw [if_pos name]
      split at found
      · next first =>
        rw [if_pos first]
        exact found
      rename_i first
      rw [if_neg first]
      cases rest : preferred kv key nodes with
      | none =>
        rw [rest] at found
        cases found
        exact absurd writable first
      | some m' =>
        rw [rest] at found
        cases found
        rw [preferred_append_rw later writable rest]
        rfl
    · next name =>
      rw [if_neg name]
      exact preferred_append_rw later writable found

theorem preferred_append_ro (later : List Kvnode) : ∀ {nodes : List Kvnode},
    (∀ n, preferred kv key nodes = some n → n.rw = false) →
      preferred kv key (nodes ++ later) = (preferred kv key later).or (preferred kv key nodes)
  | [], _ => by
    show preferred kv key later = (preferred kv key later).or none
    rw [Option.or_none]
  | m :: nodes, readOnly => by
    rw [cons_append, preferred_cons, preferred_cons]
    rw [preferred_cons] at readOnly
    by_cases name : named kv key m = true
    · rw [if_pos name] at readOnly ⊢
      rw [if_pos name]
      by_cases writable : m.rw = true
      · rw [if_pos writable] at readOnly
        rw [readOnly m rfl] at writable
        cases writable
      rw [if_neg writable] at readOnly ⊢
      rw [if_neg writable]
      rw [preferred_append_ro, Option.or_assoc]
      intro n found
      exact readOnly n (by rw [found]; rfl)
    · rw [if_neg name] at readOnly ⊢
      rw [if_neg name]
      exact preferred_append_ro later readOnly

def update (earlier : Bool × Kvnode) : Option Kvnode → Bool × Kvnode
  | some n => (true, n)
  | none => earlier

theorem walk_iterFind (kv : Kvset) (key : List UInt8) : ∀ (nodes : List Kvnode) (n : FindNode),
    n.count = (nodes.length : Int) →
    ∃ ret n', walk (iterFind key) nodes kv n = .ok (ret, kv, n') ∧
      (n'.found, n'.retNode) = update (n.found, n.retNode) (preferred kv key nodes)
  | [], n, _ => ⟨0, n, rfl, rfl⟩
  | m :: rest, n, count => by
    have step : ∀ n₁ : FindNode, n₁.count = rest.length →
        iterFind key m kv n = .ok (if n₁.count > 0 then 0 else -1, kv, n₁) →
        ∃ ret n', walk (iterFind key) (m :: rest) kv n = .ok (ret, kv, n') ∧
          (n'.found, n'.retNode) =
            update (n₁.found, n₁.retNode) (preferred kv key rest) := by
      intro n₁ count₁ called
      simp only [walk, called, bind, Except.bind]
      cases rest with
      | nil =>
        have stop : ¬ n₁.count > 0 := by simp [count₁]
        rw [if_neg stop]
        exact ⟨-1, n₁, rfl, rfl⟩
      | cons m' rest =>
        have goes : n₁.count > 0 := by
          rw [count₁]
          simp only [length_cons]
          omega
        rw [if_pos goes]
        exact walk_iterFind kv key _ n₁ count₁
    have counted : n.count - 1 = rest.length := by
      rw [count]
      simp
    rw [preferred_cons]
    by_cases name : kvnodeCmpName kv m key = 0
    · rw [if_pos (by simp [named, name])]
      by_cases writable : m.rw = true
      · rw [if_pos writable]
        refine ⟨-1, { n with found := true, retNode := m }, ?_, rfl⟩
        simp [walk, iterFind, name, writable, bind, Except.bind]
      rw [if_neg writable]
      obtain ⟨ret, n', walked, outcome⟩ :=
        step { n with found := true, retNode := m, count := n.count - 1 } counted
          (by simp [iterFind, name, writable])
      refine ⟨ret, n', walked, ?_⟩
      rw [outcome]
      cases preferred kv key rest <;> rfl
    · rw [if_neg (by simp [named, name])]
      exact step { n with count := n.count - 1 } counted (by simp [iterFind, name])

theorem iterFind_view (key : List UInt8) (i : Nat) (node : Kvnode) (kv : Kvset) (n : FindNode)
    (r : Int × Kvset × FindNode) (called : iterFind key node kv n = .ok r) :
    SameView i kv r.2.1 := by
  unfold iterFind at called
  split at called
  · split at called <;> cases called <;> exact .refl i kv
  · cases called
    exact .refl i kv

theorem Listed.kvblockFind_eq (listing : Listed g kv) (regular : Regular kv) (key : List UInt8)
    (within : i < g.num) (node : Kvnode) :
    kvblockFind kv i key node =
      .ok (update (false, node) (preferred kv key (liveNodes kv i))) := by
  obtain ⟨nodes, listed⟩ := listing.blocks i within
  have walks : ∀ n : FindNode, kvblockIter i false (iterFind key) kv n =
      walk (iterFind key) (liveNodes kv i) kv n := by
    intro n
    rw [liveNodes_eq listed]
    exact iterLoop_eq_walk (iterFind_view key i) listed
  have count := (regular i (by rw [listing.shaped.num]; exact within)).1
  obtain ⟨ret, n', walked, outcome⟩ := walk_iterFind kv key _
    { count := (kv.blocks i).count, found := false, retNode := node } (by rw [count])
  simp only [kvblockFind, walks, walked, bind, Except.bind]
  exact congrArg Except.ok outcome

theorem Listed.scanLoop_eq (listing : Listed g kv) (regular : Regular kv) (key : List UInt8) :
    ∀ (left i : Nat) (found : Bool) (node : Kvnode), i + left ≤ g.num →
      scanLoop kv key left i found node =
        .ok (update (found, node) (preferred kv key (liveFrom kv i left)))
  | 0, _, _, _, _ => rfl
  | left + 1, i, found, node, bound => by
    have rest := fun found node => listing.scanLoop_eq regular key left (i + 1) found node
      (by omega)
    rw [scanLoop, listing.kvblockFind_eq regular key (by omega), liveFrom_succ]
    simp only [bind, Except.bind]
    cases here : preferred kv key _ with
    | none =>
      rw [preferred_append_ro _ (by simp [here])]
      simp only [update, Bool.false_eq_true, false_and, if_false, Bool.or_false, rest, here]
      cases preferred kv key _ <;> rfl
    | some n =>
      cases writable : n.rw with
      | true =>
        rw [preferred_append_rw _ writable here]
        simp [update, writable]
      | false =>
        rw [preferred_append_ro _ (fun m same => by
          rw [here] at same
          cases same
          exact writable)]
        simp only [update, writable, Bool.false_eq_true, and_false, if_false, Bool.or_true,
          rest, here]
        cases preferred kv key _ <;> rfl

theorem Listed.kvFindScan_eq (listing : Listed g kv) (regular : Regular kv) (key : List UInt8) :
    kvFindScan kv key = .ok (update (false, {}) (preferred kv key (allNodes kv))) :=
  listing.scanLoop_eq regular key kv.num 0 false {} (by rw [listing.shaped.num]; omega)

/-! ## Agreement -/

theorem Listed.hashesLike_of_named (listing : Listed g kv) (key : CString)
    (member : n ∈ allNodes kv) (writable : n.rw = true) (name : named kv key.bytes n = true) :
    hashesLike kv key.bytes n = true := by
  obtain ⟨i, within, live⟩ := listing.mem_allNodes.mp member
  obtain ⟨c, search⟩ := listing.searched within live
  obtain ⟨k, nul, short, bound, -⟩ := searchAt_rw g.small g.words search writable
  have head : kv.headOf n = fun o => blockBytes g kv.flash i (n.headOffset + o) := by
    funext o
    simp only [Kvset.headOf, searchAt_block search, listing.shaped.read within]
  obtain ⟨text, str, length⟩ := exists_cstr (s := kv.headOf n) (k := k) (by rw [head]; exact nul)
  have compared : kvnodeCmpName kv n key.bytes = 0 ↔ key.bytes = text := by
    unfold kvnodeCmpName
    rw [bound]
    exact keycmp_eq_zero_iff key.cstr str (by omega)
  have same : key.bytes = text := compared.mp (by simpa [named] using name)
  have room : text.length < kv.num * (kv.blocks 0).size := by
    rw [listing.shaped.num, listing.shaped.size 0 (by omega)]
    calc text.length < g.size := by omega
      _ = 1 * g.size := (Nat.one_mul _).symm
      _ ≤ g.num * g.size := Nat.mul_le_mul_right _ (by omega)
  have read : headString kv n = text := readString_eq (by simpa using str) room
  simp [hashesLike, read, same]

theorem Listed.sameAnswer_iff (listing : Listed g kv) (regular : Regular kv) (key : List UInt8) :
    SameAnswer kv key ↔
      (allNodes kv).find? (fun n => hashesLike kv key n && named kv key n) =
        preferred kv key (allNodes kv) := by
  have cached := listing.kvFind_eq regular key {}
  unfold SameAnswer
  rw [listing.kvFindScan_eq regular]
  cases first : (allNodes kv).find? _ with
  | none =>
    rw [first] at cached
    obtain ⟨stale, failed⟩ := cached
    rw [failed]
    cases preferred kv key _ <;> simp [update]
  | some n =>
    rw [first] at cached
    rw [cached]
    cases preferred kv key _ <;> simp [update]

theorem takeWhile_find? {p : α → Bool} {l : List α} {a : α} (found : l.find? p = some a) :
    ∃ after, l = l.takeWhile (fun b => !p b) ++ a :: after ∧
      ∀ b ∈ l.takeWhile (fun b => !p b), p b = false := by
  obtain ⟨here, before, after, rfl, earlier⟩ := find?_eq_some_iff_append.mp found
  have upto : (before ++ a :: after).takeWhile (fun b => !p b) = before := by
    rw [takeWhile_append_of_pos (by simpa using earlier),
      takeWhile_cons_of_neg (by simpa), append_nil]
  rw [upto]
  exact ⟨after, rfl, fun b member => by simpa using earlier b member⟩

def lineAndNode : Mem := fun a =>
  ([0x61, eqByte, 0x31, nlByte] ++ nodeBytes [0x62] [0x78] 1).getD a blank

end Phy6212.Kv
