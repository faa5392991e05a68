import Phy6212.Kv.Index

/-!
# The entry that `kv_cache_out` looks for

The loop of `kv_cache_out` runs past the array without an entry for the place, which is always that
of a node `kv_find` returned.
-/

namespace Phy6212.Kv

open List NorFlash Runs

inductive StringCall where
  | set (key : CString) (value : List UInt8)
  | rm (key : CString)
  | get (key : CString) (size : Nat)

def performString (kv : Kvset) : Env × StringCall → Except Halt Kvset
  | (env, .set key value) => (kvSet env kv key.bytes value).map Prod.snd
  | (_, .rm key) => (kvRm kv key.bytes).map Prod.snd
  | (_, .get key size) => (kvGet kv key.bytes size).map fun _ => kv

/-- The call moves no node: a `kv_set` is refused for its arguments, or has a key of the store
and finds room or nothing to move. -/
def Unmoved (kv : Kvset) : Env × StringCall → Prop
  | (_, .set key value) =>
    value.length = 0 ∨ 498 ≤ key.bytes.length + value.length ∨
      ∃ stored : Key, stored.bytes = key.bytes ∧ (HasRoom kv stored value ∨ NothingToMove kv)
  | (_, .rm _) => True
  | (_, .get _ _) => True

def Cached (cache : List CacheNode) (i off : Nat) : Prop := ∃ c ∈ cache, c.blockId = i ∧ c.offset = off

variable {kv : Kvset}

theorem kvCacheOut_overruns {i off : Nat} (nonempty : kv.cache ≠ [])
    (absent : ¬ Cached kv.cache i off) : kvCacheOut kv i off = .error .overrun := by
  have unmatched : (kv.cache.findIdx? fun c => c.offset = off && c.blockId = i) = none := by
    refine findIdx?_eq_none_iff.mpr fun c member => ?_
    by_contra same
    simp only [Bool.not_eq_false, Bool.and_eq_true, decide_eq_true_eq] at same
    exact absent ⟨c, member, same.2, same.1⟩
  rw [kvCacheOut, if_neg nonempty, unmatched]

theorem flashWrite_cache (kv : Kvset) (block : Kvblock) (pos : Nat) (data : List UInt8) :
    (kv.flashWrite block pos data).cache = kv.cache := by
  unfold Kvset.flashWrite
  split
  · rfl
  · rfl

theorem kvnodeRm_cache (kv : Kvset) (node : Kvnode) : (kvnodeRm kv node).cache = kv.cache := by
  unfold kvnodeRm
  split
  · rfl
  split
  · simp only
    split
    · exact flashWrite_cache kv _ _ _
    · rfl
  · rfl

/-- The used entries of the cache are the given places, each of a live node. -/
structure Tracks (g : Geometry) (kv : Kvset) (logs : Nat → List Entry)
    (places : Nat → Nat → UInt32 → Prop) : Prop where
  rep : Rep g kv logs
  cache : CacheFor places kv.cache
  live : ∀ ⦃i off hash⦄, places i off hash → Hashed g logs i off hash

variable {g : Geometry} {logs : Nat → List Entry} {places : Nat → Nat → UInt32 → Prop} {i off : Nat}
  {e : Entry}

theorem findLoop_named (rep : Rep g kv logs) (key : CString) (cache : List CacheNode)
    (node : Kvnode)
    (sound : ∀ c ∈ cache, c.unused = true ∨ Hashed g logs c.blockId c.offset c.hash) :
    (∃ c ∈ cache, ∃ e, Lives g logs c.blockId c.offset e ∧ e.key.bytes = key.bytes ∧
      findLoop kv key.bytes cache node = .ok (true, e.node c.blockId c.offset)) ∨
    ∃ node', findLoop kv key.bytes cache node = .ok (false, node') := by
  induction cache generalizing node with
  | nil => exact .inr ⟨node, rfl⟩
  | cons c cache found =>
    have rest (node : Kvnode) := found node fun d member => sound d (mem_cons_of_mem _ member)
    rw [findLoop]
    split
    · next consulted =>
      rcases sound c mem_cons_self with unused | ⟨e, lives, -⟩
      · exact absurd (unused_iff.mp unused).2 consulted.2.1
      rw [rep.search lives]
      simp only [bind, Except.bind]
      split
      · next same =>
        unfold kvnodeCmpName at same
        rw [e.keyBound_eq, keycmp_eq_zero_iff key.cstr (rep.laid.headOf lives) (by omega)]
          at same
        exact .inl ⟨c, mem_cons_self, e, lives, same.symm, rfl⟩
      · rcases rest _ with ⟨d, member, hit⟩ | missing
        · exact .inl ⟨d, mem_cons_of_mem _ member, hit⟩
        · exact .inr missing
    · rcases rest node with ⟨d, member, hit⟩ | missing
      · exact .inl ⟨d, mem_cons_of_mem _ member, hit⟩
      · exact .inr missing

section

variable (tracks : Tracks g kv logs places)

include tracks

theorem Tracks.find (key : CString) :
    (∃ i off hash e, places i off hash ∧ Lives g logs i off e ∧ e.key.bytes = key.bytes ∧
      kvFind kv key.bytes {} = .ok (true, e.node i off)) ∨
    ∃ node, kvFind kv key.bytes {} = .ok (false, node) := by
  have sound : ∀ c ∈ kv.cache, c.unused = true ∨ Hashed g logs c.blockId c.offset c.hash :=
    fun c member => (tracks.cache.sound c member).imp_right fun named => tracks.live named
  rcases findLoop_named tracks.rep key kv.cache {} sound with
    ⟨c, member, e, lives, key_eq, hit⟩ | missing
  · have bounds := tracks.rep.place_bounds lives
    exact .inl ⟨_, _, _, e, tracks.cache.named member bounds.1, lives, key_eq, hit⟩
  · exact .inr missing

theorem Tracks.out {hash : UInt32} (named : places i off hash) (lives : Lives g logs i off e) :
    ∃ cache logs', kvCacheOut (kvnodeRm kv (e.node i off)) i off =
        .ok { kvnodeRm kv (e.node i off) with cache := cache } ∧
      OneOp kv (kvnodeRm kv (e.node i off)) ∧
      (∀ i' off' x, Lives g logs' i' off' x ↔ Lives g logs i' off' x ∧ ¬ (i' = i ∧ off' = off)) ∧
      Tracks g { kvnodeRm kv (e.node i off) with cache := cache } logs'
        fun i' off' hash => places i' off' hash ∧ ¬ (i' = i ∧ off' = off) := by
  obtain ⟨within, live, before, after, log_eq, rfl⟩ := id lives
  obtain ⟨rep', one⟩ := kvnodeRm_rep tracks.rep within live log_eq
  have cacheFor : CacheFor places (kvnodeRm kv (e.node i (logSize before))).cache := by
    rw [one.cache]
    exact tracks.cache
  obtain ⟨cache, out, -, released⟩ := kvCacheOut_spec cacheFor named
  refine ⟨cache, _, out, one, fun i' off' x => lives_remove within live log_eq,
    rep'.setCache cache, released, ?_⟩
  rintro i' off' hash' ⟨place, apart⟩
  obtain ⟨x, xLives, hash_eq⟩ := tracks.live place
  exact ⟨x, (lives_remove within live log_eq).mpr ⟨xLives, apart⟩, hash_eq⟩

theorem Tracks.add (env : Env) (lives : Lives g logs i off e)
    (fresh : ∀ hash, ¬ places i off hash) :
    ∃ ret cache places', kvCacheIn env kv e.key.bytes i off = (ret, { kv with cache := cache }) ∧
      Tracks g { kv with cache := cache } logs places' := by
  rcases kvCacheIn_spec tracks.cache env e.key.bytes fresh (tracks.rep.place_bounds lives) with
    ⟨failed, -⟩ | ⟨cache, added, cacheFor⟩
  · exact ⟨-1, kv.cache, places, failed, tracks⟩
  refine ⟨0, cache, _, added, tracks.rep.setCache cache, cacheFor, ?_⟩
  rintro i' off' hash (old | ⟨rfl, rfl, rfl⟩)
  · exact tracks.live old
  · exact ⟨e, lives, rfl⟩

theorem Tracks.fresh (j : Nat) (hash : UInt32) : ¬ places j (logSize (logs j)) hash := by
  intro named
  obtain ⟨x, lives, -⟩ := tracks.live named
  have inside := lives.inside
  have positive := x.size_bounds
  omega

end

def Tracked (g : Geometry) (kv : Kvset) : Prop :=
  ∃ logs places, Ready g kv logs ∧ Tracks g kv logs places

theorem kvRm_tracked (tracked : Tracked g kv) (key : CString) :
    ∃ ret kv', kvRm kv key.bytes = .ok (ret, kv') ∧ Tracked g kv' := by
  obtain ⟨logs, places, ready, tracks⟩ := tracked
  unfold kvRm
  rcases tracks.find key with ⟨i, off, hash, e, named, lives, -, found⟩ | ⟨node, missing⟩
  · obtain ⟨cache, logs', out, one, -, tracks'⟩ := tracks.out named lives
    have out' : kvCacheOut _ ((e.node i off).block.getD 0)
        (e.node i off).headOffset = .ok { kvnodeRm kv _ with cache := cache } := out
    simp only [found, bind, Except.bind, if_true, out']
    refine ⟨0, _, rfl, logs', _, ⟨tracks'.rep, ?_, ?_⟩, tracks'⟩
    · exact one.bid.trans_lt ready.bid
    · obtain ⟨gc, within, gcBid⟩ := ready.gc
      exact ⟨gc, within, one.gcBid.trans gcBid⟩
  · simp only [missing, bind, Except.bind]
    exact ⟨-1, kv, rfl, logs, places, ready, tracks⟩

theorem afterPlace_tracked {kv₁ : Kvset} {n : Entry} {j gc : Nat} {result : Bool × Kvnode}
    (tracks : Tracks g kv logs places) (within : j < g.num) (gcWithin : gc < g.num)
    (gcBid : kv.gcBid = some gc) (live : n.live = true)
    (rep₁ : Rep g kv₁ (Function.update logs j (logs j ++ [n]))) (one : OneOp { kv with bid := j } kv₁)
    (looked : (∃ i off hash e, places i off hash ∧ Lives g logs i off e ∧
      result = (true, e.node i off)) ∨ result.1 = false) (env : Env) (size : Nat) :
    ∃ ret kv', afterPlace env kv₁ n.key.bytes size (oldNode result) (logSize (logs j)) =
      .ok (ret, kv') ∧ Tracked g kv' := by
  have bid : kv₁.bid = j := one.bid
  have gcBid₁ : kv₁.gcBid = some gc := one.gcBid.trans gcBid
  have cache₁ : kv₁.cache = kv.cache := one.cache
  have tracks₁ : Tracks g kv₁ (Function.update logs j (logs j ++ [n])) places := by
    refine ⟨rep₁, cache₁ ▸ tracks.cache, fun i off hash named => ?_⟩
    obtain ⟨x, lives, hash_eq⟩ := tracks.live named
    exact ⟨x, (lives_append within live).mpr (.inl lives), hash_eq⟩
  have new : Lives g _ j (logSize (logs j)) n :=
    (lives_append within live).mpr (.inr ⟨rfl, rfl, rfl⟩)
  rcases looked with ⟨i, off, hash, e, named, lives, rfl⟩ | missing
  · obtain ⟨cache, logs', out, one₂, removed, tracks₂⟩ :=
      tracks₁.out named ((lives_append within live).mpr (.inl lives))
    have stays : Lives g logs' j (logSize (logs j)) n := by
      refine (removed _ _ _).mpr ⟨new, ?_⟩
      rintro ⟨rfl, rfl⟩
      exact tracks.fresh _ _ named
    obtain ⟨ret, cache', places', added, tracks₃⟩ := tracks₂.add env stays
      fun hash' place => tracks.fresh j hash' place.1
    have call := @afterPlace_some env kv₁ _ _ out j (one₂.bid.trans bid) n.key.bytes
      size (logSize (logs j))
    rw [added] at call
    refine ⟨_, _, call, logs', places', ⟨tracks₃.rep, ?_, gc, gcWithin, ?_⟩, tracks₃⟩
    · exact (one₂.bid.trans bid).trans_lt within
    · exact one₂.gcBid.trans gcBid₁
  · have none_old : oldNode result = none := by simp [oldNode, missing]
    obtain ⟨ret, cache', places', added, tracks₂⟩ := tracks₁.add env new (tracks.fresh j)
    rw [none_old, afterPlace_none, bid, added]
    exact ⟨_, _, rfl, _, places', ⟨tracks₂.rep, bid.trans_lt within, gc, gcWithin, gcBid₁⟩, tracks₂⟩

section

variable (tracked : Tracked g kv)

include tracked

theorem kvSet_tracked (env : Env) (key : CString) (value : List UInt8)
    (unmoved : Unmoved kv (env, .set key value)) :
    ∃ ret kv', kvSet env kv key.bytes value = .ok (ret, kv') ∧ Tracked g kv' := by
  by_cases refused : value.length = 0 ∨ 498 ≤ key.bytes.length + value.length
  · exact ⟨-1, kv, if_pos refused, tracked⟩
  obtain ⟨stored, bytes, room⟩ : ∃ stored : Key, stored.bytes = key.bytes ∧
      (HasRoom kv stored value ∨ NothingToMove kv) := by
    rcases unmoved with empty | long | stored
    · exact absurd (.inl empty) refused
    · exact absurd (.inr long) refused
    · exact stored
  obtain ⟨logs, places, ready, tracks⟩ := id tracked
  obtain ⟨gc, gcWithin, gcBid⟩ := ready.gc
  have accepted : ¬ Refused stored value := by
    rw [← bytes] at refused
    exact refused
  obtain ⟨result, found, looked⟩ : ∃ result, kvFind kv stored.bytes {} = .ok result ∧
      ((∃ i off hash e, places i off hash ∧ Lives g logs i off e ∧
        result = (true, e.node i off)) ∨ result.1 = false) := by
    rw [bytes]
    rcases tracks.find key with ⟨i, off, hash, e, named, lives, -, found⟩ | ⟨node, missing⟩
    · exact ⟨_, found, .inl ⟨i, off, hash, e, named, lives, rfl⟩⟩
    · exact ⟨_, missing, .inr rfl⟩
  rw [← bytes]
  rcases @place_spec g kv logs gc (newEntry stored value _ accepted) ready env
    _ rfl rfl gcBid with ⟨j, kv₁, here, placed, rep₁, one⟩ | ⟨full, unplaced⟩
  · rw [kvSet_placed accepted found placed]
    exact afterPlace_tracked tracks here.1 gcWithin gcBid rfl rep₁ one looked env value.length
  have nothing : NothingToMove kv := by
    refine room.resolve_left fun fits => ?_
    obtain ⟨j, here⟩ := (hasRoom_iff ready.rep gcBid stored value).mp fits
    exact full j here
  rw [kvSet_full accepted found unplaced (kvGc_nothing gcBid nothing env)]
  exact ⟨-1, kv, rfl, tracked⟩

theorem kvGet_tracked (key : CString) (size : Nat) : ∃ got, kvGet kv key.bytes size = .ok got := by
  obtain ⟨logs, places, -, tracks⟩ := tracked
  unfold kvGet
  rcases tracks.find key with ⟨i, off, hash, e, -, -, -, found⟩ | ⟨node, missing⟩
  · simp only [found, bind, Except.bind, if_true]
    exact ⟨_, rfl⟩
  · simp only [missing, bind, Except.bind]
    exact ⟨_, rfl⟩

theorem performString_tracked (call : Env × StringCall)
    (unmoved : Unmoved kv call) : ∃ kv', performString kv call = .ok kv' ∧ Tracked g kv' := by
  obtain ⟨env, call⟩ := call
  cases call with
  | set key value =>
    obtain ⟨ret, kv', performed, tracked'⟩ := kvSet_tracked tracked env key value unmoved
    exact ⟨kv', by simp [performString, performed, Except.map], tracked'⟩
  | rm key =>
    obtain ⟨ret, kv', performed, tracked'⟩ := kvRm_tracked tracked key
    exact ⟨kv', by simp [performString, performed, Except.map], tracked'⟩
  | get key size =>
    obtain ⟨got, performed⟩ := kvGet_tracked tracked key size
    exact ⟨kv, by simp [performString, performed, Except.map], tracked⟩

theorem Tracked.cached {key : CString} {node : Kvnode}
    (found : kvFind kv key.bytes {} = .ok (true, node)) :
    Cached kv.cache (node.block.getD 0) node.headOffset := by
  obtain ⟨logs, places, -, tracks⟩ := tracked
  rcases tracks.find key with ⟨i, off, hash, e, named, -, -, found'⟩ | ⟨node', missing⟩
  · rw [found] at found'
    rw [(Prod.mk.inj (Except.ok.inj found')).2]
    exact tracks.cache.complete named
  · rw [found] at missing
    exact absurd (Prod.mk.inj (Except.ok.inj missing)).1 (by decide)

end

theorem Serves.tracked {map : Key → Option (List UInt8)} (serves : Serves g kv map) :
    Tracked g kv := by
  obtain ⟨logs, ready, -, -, cacheOk⟩ := serves
  exact ⟨logs, Hashed g logs, ready, ready.rep, cacheOk, fun _ _ _ named => named⟩

/-- **As long as nothing is moved, `kv_cache_out` finds its entry**: every node that `kv_find`
returns has its place in the cache, and the next call does not run past the cache either. -/
theorem cacheOut_matches {g : Geometry} {flash : Mem} (erased : Erased g flash) (env : Env)
    (cachedSize : Nat) (kv kv' : Kvset)
    (start : kvInit env cachedSize flash g.num g.size = .ok (0, kv))
    (reached : Reaches performString Unmoved kv kv') :
    (∀ (key : CString) (node : Kvnode), kvFind kv' key.bytes {} = .ok (true, node) →
      Cached kv'.cache (node.block.getD 0) node.headOffset) ∧
    ∀ call, Unmoved kv' call → ∃ kv'', performString kv' call = .ok kv'' := by
  have tracked : Tracked g kv' := by
    refine reached.invariant (erased.serves start).tracked fun s call s' held allowed ok => ?_
    obtain ⟨s'', performed, held'⟩ := performString_tracked held call allowed
    rw [performed] at ok
    rw [← Except.ok.inj ok]
    exact held'
  refine ⟨fun key node found => tracked.cached found, fun call unmoved => ?_⟩
  obtain ⟨kv'', performed, -⟩ := performString_tracked tracked call unmoved
  exact ⟨kv'', performed⟩

def stringA : CString := ⟨keyA.bytes, keyA.nonzero⟩

def stringB : CString := ⟨keyB.bytes, keyB.nonzero⟩

def stringC : CString := ⟨[0x63], forall_mem_singleton.mpr (by decide)⟩

theorem cacheOut_matches_single :
    ∃ kv kv', kvInit plenty 50 (fun _ => blank) twoBlocks.num twoBlocks.size = .ok (0, kv) ∧
      Unmoved kv (plenty, .set stringA [1]) ∧
      performString kv (plenty, .set stringA [1]) = .ok kv' ∧
      ∃ kv'', performString kv' (plenty, .rm stringA) = .ok kv'' := by
  obtain ⟨kv, start, -, -, room⟩ := twoBlocks_start
  have unmoved : Unmoved kv (plenty, .set stringA [1]) := .inr (.inr ⟨keyA, rfl, .inl room⟩)
  obtain ⟨kv', performed⟩ :=
    (cacheOut_matches (erased_blank twoBlocks) plenty 50 kv kv start .refl).2 _ unmoved
  have reached : Reaches performString Unmoved kv kv' := .tail .refl unmoved performed
  exact ⟨kv, kv', start, unmoved, performed,
    (cacheOut_matches (erased_blank twoBlocks) plenty 50 kv kv' start reached).2 _ trivial⟩

/-- A block holds `a` and `b` and is filled with a long `c`, which is removed. -/
def collectedTwice : List (Env × StringCall) :=
  [(plenty, .set stringC (replicate 29 7)), (plenty, .set stringA (replicate 9 7)),
    (plenty, .set stringB (replicate 60 7)), (plenty, .rm stringC),
    (plenty, .set stringC (replicate 310 7)), (plenty, .rm stringC),
    (plenty, .set stringA (replicate 49 7)),
    (plenty, .set stringC (replicate 290 7)), (plenty, .rm stringC),
    (plenty, .set stringC (replicate 49 7))]

def afterCalls (g : Geometry) (calls : List (Env × StringCall)) : Except Halt Kvset := do
  let (_, kv) ← kvInit plenty 50 (fun _ => blank) g.num g.size
  calls.foldlM performString kv

theorem afterCalls_eq (start : kvInit plenty 50 (fun _ => blank) g.num g.size = .ok (0, kv))
    (calls : List (Env × StringCall)) : afterCalls g calls = calls.foldlM performString kv := by
  simp only [afterCalls, start, bind, Except.bind]

def foundAndCached (kv : Kvset) (key : CString) : Option (Bool × Bool) :=
  (kvFind kv key.bytes {}).toOption.map fun r =>
    (r.1, kv.cache.any fun c => c.blockId = r.2.block.getD 0 && c.offset = r.2.headOffset)

/-- **`kv_cache_out` runs past the cache** after two collections: the node of `a` is found at a
place that no entry names. -/
theorem cacheOut_overruns :
    ∃ kv kv' node, kvInit plenty 50 (fun _ => blank) twoBlocks.num twoBlocks.size = .ok (0, kv) ∧
      Reaches performString (fun _ _ => True) kv kv' ∧
      kvFind kv' stringA.bytes {} = .ok (true, node) ∧
      ¬ Cached kv'.cache (node.block.getD 0) node.headOffset ∧
      kvRm kv' stringA.bytes = .error .overrun := by
  obtain ⟨kv, start⟩ := kvInit_blank twoBlocks
  have evaluated : (afterCalls twoBlocks collectedTwice).toOption.bind (foundAndCached · stringA) =
      some (true, false) := by
    decide +kernel
  obtain ⟨kv', ran, lookup⟩ := Option.bind_eq_some_iff.mp evaluated
  have calls : collectedTwice.foldlM performString kv = .ok kv' :=
    (afterCalls_eq start collectedTwice).symm.trans (ok_of_toOption ran)
  obtain ⟨⟨found, node⟩, hit, fields⟩ := Option.map_eq_some_iff.mp lookup
  obtain ⟨rfl, unnamed⟩ := Prod.mk.inj fields
  have absent : ¬ Cached kv'.cache (node.block.getD 0) node.headOffset := by
    rintro ⟨c, member, same⟩
    rw [any_eq_false] at unnamed
    exact unnamed c member (by simp [same])
  refine ⟨kv, kv', node, start, reaches_foldlM (fun _ _ _ => trivial) calls, ok_of_toOption hit,
    absent, ?_⟩
  have cached : kv'.cache ≠ [] := by
    intro empty
    have := ok_of_toOption hit
    rw [kvFind, empty] at this
    exact absurd (Prod.mk.inj (Except.ok.inj this)).1 (by decide)
  rw [← kvnodeRm_cache kv' node] at cached absent
  unfold kvRm
  simp only [ok_of_toOption hit, bind, Except.bind, if_true, kvCacheOut_overruns cached absent]

end Phy6212.Kv
