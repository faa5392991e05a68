import Phy6212.Kv.Collect
import Phy6212.Runs.Simulation

/-!
# Sessions of calls

A session is a sequence of calls after a start on erased flash. The store behaves as a map
(`record`) as long as garbage collection has nothing to move (`Undisturbed`, `session_follows_map`).
-/

namespace Phy6212.Kv

open NorFlash Runs

inductive Call where
  | set (key : Key) (value : List UInt8)
  | rm (key : Key)
  | get (key : Key) (size : Nat)
  deriving DecidableEq, Repr

def perform (kv : Kvset) : Env × Call → Except Halt (Int × Kvset)
  | (env, .set key value) => kvSet env kv key.bytes value
  | (_, .rm key) => kvRm kv key.bytes
  | (_, .get key size) => do
      let (ret, _) ← kvGet kv key.bytes size
      .ok (ret, kv)

/-- What the store should be: a map that successful calls change. -/
def record (map : Key → Option (List UInt8)) : Env × Call → Int → Key → Option (List UInt8)
  | (_, .set key value), ret => if ret = -1 then map else Function.update map key (some value)
  | (_, .rm key), ret => if ret = -1 then map else Function.update map key none
  | (_, .get _ _), _ => map

def emptyMap : Key → Option (List UInt8) := fun _ => none

def nodeSize (key : Key) (value : List UInt8) : Nat :=
  align4 (key.bytes.length + value.length + rwFlagSize + 1) + 4

def HasRoom (kv : Kvset) (key : Key) (value : List UInt8) : Prop :=
  ∃ i < kv.num, some i ≠ kv.gcBid ∧ (kvblockAllocNode (kv.blocks i) (nodeSize key value)).isSome

def NothingToMove (kv : Kvset) : Prop := ∀ gc, kv.gcBid = some gc → minUsed kv gc = none

/-- The call leaves all stored nodes where they are, and can name its new node in
the cache. -/
def Undisturbed (kv : Kvset) : Env × Call → Prop
  | (env, .set key value) =>
    Refused key value ∨
    (HasRoom kv key value ∧
      ((∃ node, kvFind kv key.bytes {} = .ok (true, node)) ∨ CacheRoom env kv.cache)) ∨
    (¬ HasRoom kv key value ∧ NothingToMove kv)
  | (_, .rm _) => True
  | (_, .get _ _) => True

/-- The store has the contents of the map, and its cache is right. -/
def Serves (g : Geometry) (kv : Kvset) (map : Key → Option (List UInt8)) : Prop :=
  ∃ logs, Ready g kv logs ∧ Unique g logs ∧ Contents g logs map ∧ CacheOk g logs kv.cache

variable {g : Geometry} {kv : Kvset} {map : Key → Option (List UInt8)}

theorem hasRoom_iff {logs : Nat → List Entry} (rep : Rep g kv logs) {gc : Nat}
    (gcBid : kv.gcBid = some gc) (key : Key) (value : List UInt8) :
    HasRoom kv key value ↔ ∃ j, Fits g logs gc (nodeSize key value) j := by
  have alloc (i : Nat) (within : i < g.num) :
      (kvblockAllocNode (kv.blocks i) (nodeSize key value)).isSome ↔
        logSize (logs i) + nodeSize key value + 4 ≤ g.size := by
    rw [rep.record i within]
    unfold kvblockAllocNode
    split
    · next fits => exact ⟨fun _ => fits, fun _ => rfl⟩
    · next full => exact ⟨fun impossible => absurd impossible (by simp), fun fits => absurd fits full⟩
  unfold HasRoom
  rw [rep.num, gcBid]
  constructor
  · rintro ⟨i, within, other, some_⟩
    exact ⟨i, within, fun equal => other (by rw [equal]), (alloc i within).mp some_⟩
  · rintro ⟨i, within, other, fits⟩
    exact ⟨i, within, fun equal => other (Option.some.inj equal), (alloc i within).mpr fits⟩

theorem perform_get (serves : Serves g kv map) (env : Env) (key : Key) (size : Nat) :
    ∃ ret, perform kv (env, .get key size) = .ok (ret, kv) := by
  obtain ⟨logs, ready, unique, contents, cacheOk⟩ := serves
  refine ⟨(getResult size (map key)).1, ?_⟩
  simp only [perform, kvGet_eq ready.rep cacheOk unique contents]
  rfl

theorem perform_rm (serves : Serves g kv map) (env : Env) (key : Key) :
    ∃ ret kv', perform kv (env, .rm key) = .ok (ret, kv') ∧
      Serves g kv' (record map (env, .rm key) ret) := by
  obtain ⟨logs, ready, unique, contents, cacheOk⟩ := serves
  obtain ⟨result, found, lookedUp⟩ := kvFind_lookedUp ready.rep cacheOk unique key
  unfold perform kvRm
  simp only [found, bind, Except.bind]
  rcases lookedUp with ⟨i, off, e, lives, rfl, rfl⟩ | ⟨absent, missing⟩
  · obtain ⟨logs', ready', cache_eq, removed, unique', contents'⟩ :=
      kvnodeRm_spec ready unique contents lives
    rw [← cache_eq] at cacheOk
    obtain ⟨cache, out, -, released⟩ := kvCacheOut_spec cacheOk ⟨e, lives, rfl⟩
    refine ⟨0, { kvnodeRm kv _ with cache := cache }, ?_, logs',
      ⟨ready'.rep.setCache cache, ready'.bid, ready'.gc⟩, unique', contents', ?_⟩
    · rw [if_pos rfl, show (e.node i off).block.getD 0 = i from rfl,
        show (e.node i off).headOffset = off from rfl, out]
    refine released.congr fun i' off' hash => ?_
    constructor
    · rintro ⟨⟨x, xLives, hash_eq⟩, apart⟩
      exact ⟨x, (removed _ _ _).mpr ⟨xLives, apart⟩, hash_eq⟩
    · rintro ⟨x, xLives, hash_eq⟩
      exact ⟨⟨x, ((removed _ _ _).mp xLives).1, hash_eq⟩, ((removed _ _ _).mp xLives).2⟩
  · rw [if_neg (by rw [missing]; exact Bool.false_ne_true)]
    exact ⟨-1, kv, rfl, logs, ready, unique, contents, cacheOk⟩

variable {value : List UInt8} {key : Key}

theorem perform_set_room (serves : Serves g kv map) (env : Env) (accepted : ¬ Refused key value)
    (room : HasRoom kv key value)
    (cacheRoom : (∃ node, kvFind kv key.bytes {} = .ok (true, node)) ∨ CacheRoom env kv.cache) :
    ∃ kv', perform kv (env, .set key value) = .ok (value.length, kv') ∧
      Serves g kv' (Function.update map key (some value)) := by
  obtain ⟨logs, ready, unique, contents, cacheOk⟩ := serves
  obtain ⟨gc, gcWithin, gcBid⟩ := ready.gc
  obtain ⟨result, found, lookedUp⟩ := kvFind_lookedUp ready.rep cacheOk unique key
  have fits := (hasRoom_iff ready.rep gcBid key value).mp room
  rcases @place_spec g kv logs gc (newEntry key value _ accepted) ready env
    _ rfl rfl gcBid with ⟨j, kv₁, here, placed, rep₁, one⟩ | ⟨full, -⟩
  · obtain ⟨logs', written, -⟩ := removeOld_spec ready.rep unique contents lookedUp rfl rfl here.1
      rep₁ one
    obtain ⟨ret, kv', finished, success⟩ := afterPlace_cacheOk env value.length unique cacheOk
      lookedUp written
    have stored : result.1 = true ∨ CacheRoom env kv.cache := by
      refine cacheRoom.imp_left ?_
      rintro ⟨node, again⟩
      rw [found] at again
      rw [Except.ok.inj again]
    obtain ⟨rfl, cacheOk'⟩ := success stored
    obtain ⟨-, cache, rfl⟩ := afterPlace_shape finished
    refine ⟨_, (kvSet_placed accepted found placed).trans finished, logs',
      ⟨written.rep.setCache cache, ?_, ?_⟩, written.replaces.unique unique,
      written.replaces.contents contents, cacheOk'⟩
    · rw [written.bid]
      exact here.1
    · refine ⟨gc, gcWithin, ?_⟩
      rw [written.gcBid, gcBid]
  · obtain ⟨j, here⟩ := fits
    exact absurd here (full j)

theorem kvGc_nothing {gc : Nat} (gcBid : kv.gcBid = some gc) (nothing : NothingToMove kv)
    (env : Env) : kvGc env kv = .ok (false, kv) := by
  unfold kvGc
  rw [gcBid]
  simp only [gcLoop, nothing gc gcBid]
  rfl

theorem perform_set_full (serves : Serves g kv map) (env : Env) (accepted : ¬ Refused key value)
    (full : ¬ HasRoom kv key value) (nothing : NothingToMove kv) :
    perform kv (env, .set key value) = .ok (-1, kv) := by
  obtain ⟨logs, ready, unique, contents, cacheOk⟩ := serves
  obtain ⟨gc, gcWithin, gcBid⟩ := ready.gc
  obtain ⟨result, found, lookedUp⟩ := kvFind_lookedUp ready.rep cacheOk unique key
  have noFit := fun fits => full ((hasRoom_iff ready.rep gcBid key value).mpr fits)
  rcases @place_spec g kv logs gc (newEntry key value _ accepted) ready env
    _ rfl rfl gcBid with ⟨j, kv₁, here, -⟩ | ⟨-, unplaced⟩
  · exact absurd ⟨j, here⟩ noFit
  · exact (kvSet_full accepted found unplaced (kvGc_nothing gcBid nothing env)).trans rfl

theorem perform_serves (kv : Kvset) (map : Key → Option (List UInt8)) (call : Env × Call)
    (serves : Serves g kv map) (undisturbed : Undisturbed kv call) :
    ∃ ret kv', perform kv call = .ok (ret, kv') ∧ Serves g kv' (record map call ret) := by
  obtain ⟨env, call⟩ := call
  cases call with
  | set key value =>
    by_cases refused : Refused key value
    · exact ⟨-1, kv, kvSet_refused refused env kv, serves⟩
    rcases undisturbed with impossible | ⟨room, cacheRoom⟩ | ⟨full, nothing⟩
    · exact absurd impossible refused
    · obtain ⟨kv', performed, serves'⟩ := perform_set_room serves env refused room cacheRoom
      refine ⟨value.length, kv', performed, ?_⟩
      exact serves'
    · exact ⟨-1, kv, perform_set_full serves env refused full nothing, serves⟩
  | rm key => exact perform_rm serves env key
  | get key size =>
    obtain ⟨ret, performed⟩ := perform_get serves env key size
    exact ⟨ret, kv, performed, serves⟩

variable {flash : Mem}

def Erased (g : Geometry) (flash : Mem) : Prop := ∀ a < g.num * g.size, flash a = blank

theorem Erased.image (erased : Erased g flash) : Image g flash fun _ => [] := by
  intro i within
  have large := g.large
  refine ⟨trivial, fun o _ high => ?_, by simp only [logSize_nil]; omega, .inl rfl⟩
  refine erased _ ?_
  have := Nat.mul_le_mul_right g.size (by omega : i + 1 ≤ g.num)
  rw [Nat.succ_mul] at this
  omega

theorem lives_nil {i off : Nat} {e : Entry} : ¬ Lives g (fun _ => []) i off e := by
  rintro ⟨-, -, before, after, equal, -⟩
  simp at equal

theorem unique_nil : Unique g fun _ => [] :=
  fun _ _ _ _ _ _ lives => absurd lives lives_nil

theorem contents_nil : Contents g (fun _ => []) emptyMap := by
  intro key value
  constructor
  · rintro ⟨i, off, e, lives, -⟩
    exact absurd lives lives_nil
  · intro impossible
    exact absurd impossible.symm (Option.some_ne_none value)

theorem Erased.serves (erased : Erased g flash) {env : Env} {cachedSize : Nat}
    (start : kvInit env cachedSize flash g.num g.size = .ok (0, kv)) : Serves g kv emptyMap := by
  have two := g.two
  have large := g.large
  have booted := erased.image.booted unique_nil start
  refine ⟨_, booted.ready (by omega : 0 < g.num) ?_, unique_nil, contents_nil, booted.cacheOk⟩
  simp only [freeSize, logSize_nil]
  omega

def FollowsMap (kv : Kvset) (calls : List (Env × Call)) : Prop :=
  ∃ rets kv', run perform kv calls = .ok (rets, kv') ∧ rets.length = calls.length ∧
    ∀ (key : Key) (size : Nat), kvGet kv' key.bytes size =
      .ok (getResult size (track record emptyMap calls rets key))

/-- **An undisturbed session follows the map.** -/
theorem session_follows_map (erased : Erased g flash) (env : Env) (cachedSize : Nat) (kv : Kvset)
    (start : kvInit env cachedSize flash g.num g.size = .ok (0, kv)) (calls : List (Env × Call))
    (undisturbed : Guarded perform Undisturbed kv calls) : FollowsMap kv calls := by
  obtain ⟨rets, kv', ran, length, logs, ready, unique, contents, cacheOk⟩ :=
    run_simulates perform_serves calls kv emptyMap (erased.serves start) undisturbed
  exact ⟨rets, kv', ran, length, fun key size => kvGet_eq ready.rep cacheOk unique contents key size⟩

def twoBlocks : Geometry where
  num := 2
  size := 512
  two := by decide
  large := by decide
  small := by decide
  words := by decide
  mapped := by decide

def plenty : Env where
  blocksHeap := true
  cacheHeap := fun _ => true
  stack := fun _ _ => 0

def keyA : Key := ⟨[0x61], by decide, by decide, List.forall_mem_singleton.mpr (by decide), rfl⟩

def keyB : Key := ⟨[0x62], by decide, by decide, List.forall_mem_singleton.mpr (by decide), rfl⟩

theorem erased_blank (g : Geometry) : Erased g fun _ => blank := fun _ _ => rfl

theorem kvInit_blank (g : Geometry) :
    ∃ kv, kvInit plenty 50 (fun _ => blank) g.num g.size = .ok (0, kv) := by
  obtain ⟨ret, kv, init, -, failed⟩ := kvInit_spec (erased_blank g).image plenty 50
  rcases eq_or_ne ret 0 with rfl | nonzero
  · exact ⟨kv, init⟩
  · rcases failed nonzero with impossible | ⟨n, impossible⟩ <;> simp [plenty] at impossible

theorem Image.boots (image : Image g flash logs) {env : Env} {size : Nat}
    (start : kvInit env size flash g.num g.size = .ok (0, kv)) :
    ∃ logs', Booted g flash logs kv logs' := by
  obtain ⟨_, _, init, booted, -⟩ := kvInit_spec image env size
  obtain ⟨rfl, rfl⟩ := Prod.mk.inj (Except.ok.inj (start.symm.trans init))
  exact booted rfl

theorem twoBlocks_start :
    ∃ kv, kvInit plenty 50 (fun _ => blank) twoBlocks.num twoBlocks.size = .ok (0, kv) ∧
      Ready twoBlocks kv (fun _ => []) ∧ CacheOk twoBlocks (fun _ => []) kv.cache ∧
      HasRoom kv keyA [1] := by
  obtain ⟨kv, start⟩ := kvInit_blank twoBlocks
  have booted := (erased_blank twoBlocks).image.booted unique_nil start
  have ready := booted.ready (i := 0) (by decide) (by decide)
  obtain ⟨gc, -, gcBid⟩ := ready.gc
  have fits : ∃ j, Fits twoBlocks (fun _ => []) gc (nodeSize keyA [1]) j := by
    rcases eq_or_ne gc 0 with rfl | other
    · exact ⟨1, by decide, by decide, by decide⟩
    · exact ⟨0, by decide, other.symm, by decide⟩
  exact ⟨kv, start, ready, booted.cacheOk, (hasRoom_iff ready.rep gcBid keyA [1]).mpr fits⟩

theorem session_follows_map_single :
    ∃ kv, kvInit plenty 50 (fun _ => blank) twoBlocks.num twoBlocks.size = .ok (0, kv) ∧
      Guarded perform Undisturbed kv [(plenty, .set keyA [1])] ∧
      FollowsMap kv [(plenty, .set keyA [1])] := by
  obtain ⟨kv, start, -, -, room⟩ := twoBlocks_start
  have undisturbed : Guarded perform Undisturbed kv [(plenty, .set keyA [1])] :=
    ⟨.inr (.inl ⟨room, .inr (.inr rfl)⟩), fun _ _ _ => trivial⟩
  exact ⟨kv, start, undisturbed,
    session_follows_map (erased_blank twoBlocks) plenty 50 kv start _ undisturbed⟩

/-- The key `a` is set once, and then `b` until a collection makes room. -/
def crowdedCalls : List (Env × Call) :=
  (plenty, .set keyA [1]) :: List.replicate 5 (plenty, .set keyB (List.replicate 93 7))

def sessionThenGet (g : Geometry) (calls : List (Env × Call)) (key : Key) (size : Nat) :
    Except Halt (Int × List Int × Int × List UInt8) := do
  let (ret, kv) ← kvInit plenty 50 (fun _ => blank) g.num g.size
  let (rets, kv) ← run perform kv calls
  let got ← kvGet kv key.bytes size
  .ok (ret, rets, got)

theorem sessionThenGet_eq {calls : List (Env × Call)} {size : Nat} {ret : Int} {kv' : Kvset}
    {rets : List Int} {got : Int × List UInt8}
    (start : kvInit plenty 50 (fun _ => blank) g.num g.size = .ok (ret, kv))
    (ran : run perform kv calls = .ok (rets, kv')) (gets : kvGet kv' key.bytes size = .ok got) :
    sessionThenGet g calls key size = .ok (ret, rets, got) := by
  simp only [sessionThenGet, start, ran, gets, bind, Except.bind]

theorem crowdedCalls_results :
    sessionThenGet twoBlocks crowdedCalls keyA 1 = .ok (0, [1, 93, 93, 93, 93, 93], -1, []) := by
  decide +kernel

/-- **A collection loses keys**: every call of the session succeeds, and then the key
that was set first is gone. -/
theorem collection_loses_key :
    ∃ kv, kvInit plenty 50 (fun _ => blank) twoBlocks.num twoBlocks.size = .ok (0, kv) ∧
      ¬ FollowsMap kv crowdedCalls := by
  obtain ⟨kv, start⟩ := kvInit_blank twoBlocks
  refine ⟨kv, start, ?_⟩
  rintro ⟨rets, kv', ran, -, follows⟩
  have results := (sessionThenGet_eq start ran (follows keyA 1)).symm.trans crowdedCalls_results
  obtain ⟨rets_eq, lost⟩ := Prod.mk.inj (Prod.mk.inj (Except.ok.inj results)).2
  rw [rets_eq] at lost
  exact absurd lost (by decide)

end Phy6212.Kv
