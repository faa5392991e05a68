import Phy6212.Kv.Session

/-!
# Reboots

Over a reboot the flash carries the contents. It is enough that each `kv_set` and `kv_rm` looks up
its own key as a scan would (`Agrees`), and finds it again behind a collection (`Anchored`;
`reboot_keeps_contents`).
-/

namespace Phy6212.Kv

open List NorFlash Runs

def Reboots (g : Geometry) (flash : Mem) (map : Key → Option (List UInt8)) : Prop :=
  ∀ env cachedSize, ∃ ret kv, kvInit env cachedSize flash g.num g.size = .ok (ret, kv) ∧
    (ret = 0 → ∀ (key : Key) (size : Nat),
      kvGet kv key.bytes size = .ok (getResult size (map key))) ∧
    (ret ≠ 0 → env.blocksHeap = false ∨ ∃ n, env.cacheHeap n = false)

theorem Recovers.reboots {g : Geometry} {flash : Mem} {logs : Nat → List Entry}
    {map : Key → Option (List UInt8)} (recovers : Recovers g logs map)
    (image : Image g flash logs) : Reboots g flash map := by
  intro env cachedSize
  obtain ⟨ret, kv, init, booted, failed⟩ := kvInit_spec image env cachedSize
  refine ⟨ret, kv, init, fun zero key size => ?_, failed⟩
  obtain ⟨logs', booted⟩ := booted zero
  exact booted.kvGet_eq recovers key size

/-! ## Lookups after a collection -/

/-- An entry of the cache that `kv_find` consults for a key. -/
def Consulted (key : Key) (c : CacheNode) : Prop :=
  c.hash = keyHash key.bytes ∧ c.blockId ≠ 0xFFFF ∧ c.offset ≠ 0xFFFF

variable {g : Geometry} {kv : Kvset} {logs : Nat → List Entry} {i off : Nat} {e : Entry} {key : Key}

theorem findLoop_skip (kv : Kvset) {c : CacheNode} (skipped : ¬ Consulted key c)
    (cache : List CacheNode) (node : Kvnode) :
    findLoop kv key.bytes (c :: cache) node = findLoop kv key.bytes cache node := by
  exact if_neg skipped

theorem findLoop_consult {c : CacheNode} {node node' : Kvnode} {found : Bool}
    (consulted : Consulted key c)
    (search : kvblockSearch kv (kv.blocks c.blockId) c.offset node = .ok (found, node'))
    (cache : List CacheNode) :
    findLoop kv key.bytes (c :: cache) node =
      if kvnodeCmpName kv node' key.bytes = 0 then .ok (true, node')
      else findLoop kv key.bytes cache node' := by
  unfold Consulted at consulted
  rw [findLoop, if_pos consulted, search]
  rfl

theorem findLoop_nothing (kv : Kvset) : ∀ (cache : List CacheNode) (node : Kvnode),
    (∀ c ∈ cache, ¬ Consulted key c) → findLoop kv key.bytes cache node = .ok (false, node)
  | [], _, _ => rfl
  | c :: cache, node, none_ => by
    rw [findLoop_skip kv (none_ c mem_cons_self)]
    exact findLoop_nothing kv cache node fun d member => none_ d (mem_cons_of_mem _ member)

theorem findLoop_only (rep : Rep g kv logs) (lives : Lives g logs i off e) :
    ∀ (cache : List CacheNode) (node : Kvnode),
      (∀ c ∈ cache, Consulted e.key c → c.blockId = i ∧ c.offset = off) →
      (∃ c ∈ cache, Consulted e.key c) →
      findLoop kv e.key.bytes cache node = .ok (true, e.node i off)
  | [], _, _, ⟨_, member, _⟩ => absurd member not_mem_nil
  | c :: cache, node, only, ⟨d, member, consulted⟩ => by
    by_cases first : Consulted e.key c
    · obtain ⟨block, offset⟩ := only c mem_cons_self first
      have search : kvblockSearch kv (kv.blocks c.blockId) c.offset node =
          .ok (true, e.node i off) := by
        rw [block, offset, rep.search lives]
      rw [findLoop_consult first search, if_pos ((rep.cmpName lives e.key).mpr rfl)]
    rw [findLoop_skip kv first]
    refine findLoop_only rep lives cache node
      (fun d member => only d (mem_cons_of_mem _ member)) ⟨d, ?_, consulted⟩
    rcases mem_cons.mp member with rfl | later
    · exact absurd consulted first
    · exact later

/-! ## What a collection leaves in place -/

variable {gc : Nat}

theorem lives_moveBlocks_keep : ∀ (plan : List Nat) (logs : Nat → List Entry) {i off : Nat}
    {e : Entry}, gc ∉ plan → i ∉ plan → Lives g logs i off e →
      Lives g (plan.foldl (moveBlock gc) logs) i off e
  | [], _, _, _, _, _, _, lives => lives
  | j :: plan, logs, i, off, e, notTarget, notMoved, lives => by
    simp only [mem_cons, not_or] at notTarget notMoved
    obtain ⟨target, targetLater⟩ := notTarget
    obtain ⟨other, later⟩ := notMoved
    refine lives_moveBlocks_keep plan _ targetLater later ?_
    obtain ⟨within, live, before, after, log_eq, size⟩ := lives
    rcases eq_or_ne i gc with rfl | notGc
    · refine ⟨within, live, before, after ++ (liveLog (logs j)).map Entry.moved, ?_, size⟩
      rw [moveBlock_target (Ne.symm target), log_eq]
      simp
    · refine ⟨within, live, before, after, ?_, size⟩
      rw [moveBlock_ne notGc other, log_eq]

theorem gc_notMem_planOf (logs : Nat → List Entry) : gc ∉ planOf g logs gc :=
  fun member => (collectPlan_mem member).2 rfl

variable {ret : Int}

theorem lives_collect_keep (notMoved : i ∉ planOf g logs gc) (lives : Lives g logs i off e) :
    Lives g (collect g logs gc) i off e :=
  lives_moveBlocks_keep _ logs (gc_notMem_planOf logs) notMoved lives

def movedBlocks (kv : Kvset) (gc : Nat) : List Nat :=
  collectPlan kv.num gc (kv.num + 1) (fun i => (kv.blocks i).kvSize)
    (kvblockFreeSize (kv.blocks gc))

/-- The cached lookup of the key and the scan of the flash agree. -/
def Agrees (kv : Kvset) (key : Key) : Prop :=
  ∃ found node node', kvFind kv key.bytes {} = .ok (found, node) ∧
    kvFindScan kv key.bytes = .ok (found, node') ∧ (found = true → node = node')

/-- A collection leaves the node of the key in place, and no other entry of the
cache has the hash of the key. -/
def Anchored (kv : Kvset) (key : Key) : Prop :=
  ∃ node i, kvFind kv key.bytes {} = .ok (true, node) ∧ node.block = some i ∧
    (∀ gc, kv.gcBid = some gc → i ∉ movedBlocks kv gc) ∧
    ∀ c ∈ kv.cache, Consulted key c → c.blockId = i ∧ c.offset = node.headOffset

/-- The call looks its key up as a scan of the flash would, before and after a
collection. -/
def Sighted (kv : Kvset) : Env × Call → Prop
  | (_, .set key value) =>
    Refused key value ∨
    (Agrees kv key ∧ (HasRoom kv key value ∨
      (∃ node, kvFind kv key.bytes {} = .ok (false, node)) ∨ Anchored kv key))
  | (_, .rm key) => Agrees kv key
  | (_, .get _ _) => True

def Stores (g : Geometry) (kv : Kvset) (map : Key → Option (List UInt8)) : Prop :=
  ∃ logs, Ready g kv logs ∧ Unique g logs ∧ Contents g logs map

variable {kv' : Kvset} {map : Key → Option (List UInt8)} {value : List UInt8}
  {result : Bool × Kvnode}

theorem Agrees.lookedUp (agrees : Agrees kv key) (rep : Rep g kv logs) (unique : Unique g logs) :
    ∃ result, kvFind kv key.bytes {} = .ok result ∧ LookedUp g logs key result := by
  obtain ⟨found, node, node', cached, scanned, same⟩ := agrees
  refine ⟨_, cached, ?_⟩
  rcases maps_or_absent g logs key with ⟨i, off, e, lives, rfl⟩ | absent
  · rw [kvFindScan_found rep unique lives] at scanned
    obtain ⟨rfl, rfl⟩ := Prod.mk.inj (Except.ok.inj scanned)
    exact .inl ⟨i, off, e, lives, rfl, by rw [same rfl]⟩
  · obtain ⟨other, missing⟩ := kvFindScan_missing rep absent
    rw [missing] at scanned
    exact .inr ⟨absent, (Prod.mk.inj (Except.ok.inj scanned)).1.symm⟩

theorem movedBlocks_eq (rep : Rep g kv logs) (gcWithin : gc < g.num) :
    movedBlocks kv gc = planOf g logs gc := by
  unfold movedBlocks planOf
  rw [rep.num, rep.record gc gcWithin]
  refine collectPlan_congr _ fun i within _ => ?_
  rw [rep.record i within]
  rfl

theorem place_stores (ready : Ready g kv logs) (unique : Unique g logs)
    (contents : Contents g logs map) (accepted : ¬ Refused key value)
    (lookedUp : LookedUp g logs key result) (env : Env) (gcBid : kv.gcBid = some gc) :
    (∃ offset kv₁, placeLoop env key.bytes value (writtenVersion result) kv.bid kv.num kv =
        .ok (some offset, kv₁) ∧
      (∃ j, Fits g logs gc (nodeSize key value) j) ∧
      Stores g (removeOld kv₁ (oldNode result)) (Function.update map key (some value)) ∧
      Evolves g (fun l => Recovers g l map ∨
        Recovers g l (Function.update map key (some value))) kv
          (removeOld kv₁ (oldNode result)) ∧
      (removeOld kv₁ (oldNode result)).cache = kv.cache) ∨
    ((¬ ∃ j, Fits g logs gc (nodeSize key value) j) ∧
      placeLoop env key.bytes value (writtenVersion result) kv.bid kv.num kv = .ok (none, kv)) := by
  rcases @place_spec g kv logs gc (newEntry key value _ accepted) ready env
    _ rfl rfl gcBid with ⟨j, kv₁, here, placed, rep₁, one⟩ | ⟨full, unplaced⟩
  · left
    obtain ⟨logs', written, evolves⟩ := removeOld_spec ready.rep unique contents lookedUp rfl rfl
      here.1 rep₁ one
    obtain ⟨gc', gcWithin, gcBid'⟩ := ready.gc
    refine ⟨_, kv₁, placed, ⟨j, here⟩, ⟨logs', ⟨written.rep, ?_, gc', gcWithin, ?_⟩,
      written.replaces.unique unique, written.replaces.contents contents⟩, evolves, written.cache⟩
    · rw [written.bid]
      exact here.1
    · rw [written.gcBid, gcBid']
  · exact .inr ⟨fun ⟨j, fits⟩ => full j fits, unplaced⟩

theorem Stores.setCache (stores : Stores g kv map) (cache : List CacheNode) :
    Stores g { kv with cache := cache } map := by
  obtain ⟨logs, ready, unique, contents⟩ := stores
  exact ⟨logs, ⟨ready.rep.setCache cache, ready.bid, ready.gc⟩, unique, contents⟩

theorem kvSetAgain_stores (stores : Ready g kv logs) (unique : Unique g logs)
    (contents : Contents g logs map) (accepted : ¬ Refused key value)
    (lookedUp : LookedUp g logs key result) {env : Env}
    (done : kvSetAgain env kv key.bytes value (writtenVersion result) (oldNode result) =
      .ok (ret, kv')) (success : ret ≠ -1) :
    Stores g kv' (Function.update map key (some value)) := by
  obtain ⟨gc, -, gcBid⟩ := stores.gc
  unfold kvSetAgain at done
  rcases place_stores stores unique contents accepted lookedUp env gcBid with
    ⟨offset, kv₁, placed, -, stores', -⟩ | ⟨-, unplaced⟩
  · simp only [placed, bind, Except.bind] at done
    obtain ⟨-, cache, rfl⟩ := afterPlace_shape done
    exact stores'.setCache cache
  · simp only [unplaced, bind, Except.bind] at done
    exact absurd (Prod.mk.inj (Except.ok.inj done)).1.symm success

theorem LookedUp.collected (absent : ∀ value, ¬ Maps g logs key value)
    (contents : Contents g logs map) (contents' : Contents g (collect g logs gc) map)
    {node : Kvnode} : LookedUp g (collect g logs gc) key (false, node) := by
  refine .inr ⟨fun value maps => absent value ?_, rfl⟩
  exact (contents key value).mpr ((contents' key value).mp maps)

theorem kvSet_stores {env : Env} (stores : Stores g kv map)
    (sighted : Sighted kv (env, .set key value))
    (done : kvSet env kv key.bytes value = .ok (ret, kv')) (success : ret ≠ -1) :
    Stores g kv' (Function.update map key (some value)) := by
  by_cases refused : Refused key value
  · rw [kvSet_refused refused] at done
    exact absurd (Prod.mk.inj (Except.ok.inj done)).1.symm success
  obtain ⟨logs, ready, unique, contents⟩ := stores
  obtain ⟨gc, gcWithin, gcBid⟩ := ready.gc
  obtain ⟨agrees, case_⟩ := sighted.resolve_left refused
  obtain ⟨result, found, lookedUp⟩ := agrees.lookedUp ready.rep unique
  rcases place_stores ready unique contents refused lookedUp env gcBid with
    ⟨offset, kv₁, placed, -, stores', -⟩ | ⟨full, unplaced⟩
  · rw [kvSet_placed refused found placed] at done
    obtain ⟨-, cache, rfl⟩ := afterPlace_shape done
    exact stores'.setCache cache
  obtain ⟨kv₁, collected, gcBid₁, bid₁, cache₁, ready₁, unique₁, contents₁, -⟩ :=
    kvGc_spec env ready unique contents gcBid
  rw [kvSet_full refused found unplaced collected] at done
  cases nothing : (planOf g logs gc).isEmpty with
  | true =>
    rw [nothing] at done
    exact absurd (Prod.mk.inj (Except.ok.inj done)).1.symm success
  | false =>
    simp only [nothing, Bool.not_false, if_true] at done
    rcases lookedUp with ⟨i, off, e, lives, rfl, rfl⟩ | ⟨absent, missing⟩
    · -- the key is stored, so its node must not have moved
      rcases case_ with room | ⟨node, notFound⟩ | ⟨node, i', found', block, stays, only⟩
      · exact absurd ((hasRoom_iff ready.rep gcBid _ _).mp room) full
      · rw [found] at notFound
        exact absurd (Prod.mk.inj (Except.ok.inj notFound)).1 (by decide)
      rw [found] at found'
      obtain rfl := (Prod.mk.inj (Except.ok.inj found')).2
      obtain rfl := Option.some.inj block
      have notMoved := stays gc gcBid
      rw [movedBlocks_eq ready.rep gcWithin] at notMoved
      have lives₁ := lives_collect_keep notMoved lives
      have consulted : ∃ c ∈ kv.cache, Consulted e.key c := by
        by_contra none_
        unfold kvFind at found
        rw [findLoop_nothing kv kv.cache {} fun c member consulted =>
          none_ ⟨c, member, consulted⟩] at found
        exact absurd (Prod.mk.inj (Except.ok.inj found)).1 (by decide)
      have again : kvFind kv₁ e.key.bytes (e.node i off) = .ok (true, e.node i off) := by
        unfold kvFind
        rw [cache₁]
        exact findLoop_only ready₁.rep lives₁ kv.cache _ only consulted
      simp only [again, bind, Except.bind, if_true] at done
      exact kvSetAgain_stores ready₁ unique₁ contents₁ refused
        (.inl ⟨i, off, e, lives₁, rfl, rfl⟩) done success
    · obtain ⟨found_, node⟩ := result
      subst missing
      exact kvSetAgain_stores ready₁ unique₁ contents₁ refused
        (LookedUp.collected absent contents contents₁) done success

theorem perform_stores (kv : Kvset) (map : Key → Option (List UInt8)) (call : Env × Call)
    (ret : Int) (kv' : Kvset) (stores : Stores g kv map) (sighted : Sighted kv call)
    (done : perform kv call = .ok (ret, kv')) (success : ret ≠ -1) :
    Stores g kv' (record map call ret) := by
  obtain ⟨env, call⟩ := call
  cases call with
  | set key value =>
    have changed : record map (env, .set key value) ret = Function.update map key (some value) := by
      show (if ret = -1 then map else Function.update map key _) = _
      rw [if_neg success]
    rw [changed]
    exact kvSet_stores stores sighted done success
  | rm key =>
    obtain ⟨logs, ready, unique, contents⟩ := stores
    obtain ⟨result, found, lookedUp⟩ := Agrees.lookedUp sighted ready.rep unique
    simp only [perform, kvRm, found, bind, Except.bind] at done
    rcases lookedUp with ⟨i, off, e, lives, rfl, rfl⟩ | ⟨absent, missing⟩
    · obtain ⟨logs', ready', -, -, unique', contents'⟩ :=
        kvnodeRm_spec ready unique contents lives
      cases out : kvCacheOut (kvnodeRm kv (e.node i off)) ((e.node i off).block.getD 0)
          (e.node i off).headOffset with
      | error halt => simp [out] at done
      | ok kv₂ =>
        simp only [out] at done
        obtain ⟨rfl, rfl⟩ := Prod.mk.inj (Except.ok.inj done)
        obtain ⟨cache, rfl⟩ := kvCacheOut_shape out
        exact Stores.setCache ⟨logs', ready', unique', contents'⟩ cache
    · rw [missing, if_neg Bool.false_ne_true] at done
      exact absurd (Prod.mk.inj (Except.ok.inj done)).1.symm success
  | get key size =>
    simp only [perform, bind, Except.bind] at done
    cases got : kvGet kv key.bytes size with
    | error halt => simp [got] at done
    | ok result =>
      simp only [got] at done
      obtain ⟨-, rfl⟩ := Prod.mk.inj (Except.ok.inj done)
      exact stores

/-- **A reboot keeps the contents** of a session of successful calls whose lookups
are right. -/
theorem reboot_keeps_contents {g : Geometry} {flash : Mem} (erased : Erased g flash) (env : Env)
    (cachedSize : Nat) (kv : Kvset)
    (start : kvInit env cachedSize flash g.num g.size = .ok (0, kv)) (calls : List (Env × Call))
    (rets : List Int) (kv' : Kvset) (ran : run perform kv calls = .ok (rets, kv'))
    (success : ∀ ret ∈ rets, ret ≠ -1) (sighted : Guarded perform Sighted kv calls) :
    Reboots g kv'.flash (track record emptyMap calls rets) := by
  obtain ⟨logs, ready, unique, contents, -⟩ := erased.serves start
  obtain ⟨logs', ready', unique', contents'⟩ := run_follows perform_stores calls kv emptyMap rets kv'
    ⟨logs, ready, unique, contents⟩ sighted ran success
  exact Recovers.reboots (.inl ⟨unique', contents'⟩) ready'.rep.image

theorem reboot_keeps_contents_single :
    ∃ kv rets kv', kvInit plenty 50 (fun _ => blank) twoBlocks.num twoBlocks.size = .ok (0, kv) ∧
      run perform kv [(plenty, .set keyA [1])] = .ok (rets, kv') ∧ (∀ ret ∈ rets, ret ≠ -1) ∧
      Guarded perform Sighted kv [(plenty, .set keyA [1])] ∧
      Reboots twoBlocks kv'.flash (track record emptyMap [(plenty, .set keyA [1])] rets) := by
  obtain ⟨kv, start, ready, cacheOk, room⟩ := twoBlocks_start
  have absent : ∀ value, ¬ Maps twoBlocks (fun _ => []) keyA value := by
    rintro value ⟨i, off, e, lives, -⟩
    exact lives_nil lives
  obtain ⟨node, missing⟩ := kvFind_missing ready.rep cacheOk absent {}
  obtain ⟨node', scanned⟩ := kvFindScan_missing ready.rep absent
  have sighted : Guarded perform Sighted kv [(plenty, .set keyA [1])] :=
    ⟨.inr ⟨⟨false, node, node', missing, scanned, by simp⟩, .inl room⟩, fun _ _ _ => trivial⟩
  obtain ⟨kv', performed, -⟩ := perform_set_room ((erased_blank twoBlocks).serves start) plenty
    (by decide) room (.inr (.inr rfl))
  have ran : run perform kv [(plenty, .set keyA [1])] = .ok ([1], kv') := run_cons performed rfl
  have success : ∀ ret ∈ [1], ret ≠ -1 := by decide
  exact ⟨kv, [1], kv', start, ran, success, sighted,
    reboot_keeps_contents (erased_blank twoBlocks) plenty 50 kv start _ [1] kv' ran success sighted⟩

/-- The key `a` is set again after a collection moved its node. -/
def updateAfterMove : List (Env × Call) := crowdedCalls ++ [(plenty, .set keyA [2])]

def sessionThenReboot (g : Geometry) (calls : List (Env × Call)) (key : Key) (size : Nat) :
    Except Halt (List Int × Int × Int × List UInt8) := do
  let (_, kv) ← kvInit plenty 50 (fun _ => blank) g.num g.size
  let (rets, kv) ← run perform kv calls
  let (ret, kv) ← kvInit plenty 50 kv.flash g.num g.size
  let got ← kvGet kv key.bytes size
  .ok (rets, ret, got)

theorem sessionThenReboot_ok {calls : List (Env × Call)} {size : Nat} {rets : List Int}
    {got : Int × List UInt8} (results : sessionThenReboot g calls key size = .ok (rets, ret, got))
    (start : kvInit plenty 50 (fun _ => blank) g.num g.size = .ok (0, kv)) :
    ∃ kv' kv'', run perform kv calls = .ok (rets, kv') ∧
      kvInit plenty 50 kv'.flash g.num g.size = .ok (ret, kv'') ∧
      kvGet kv'' key.bytes size = .ok got := by
  simp only [sessionThenReboot, start, bind, Except.bind] at results
  cases ran : run perform kv calls with
  | error halt => simp [ran] at results
  | ok first =>
    obtain ⟨rets', kv'⟩ := first
    simp only [ran] at results
    cases init : kvInit plenty 50 kv'.flash g.num g.size with
    | error halt => simp [init] at results
    | ok second =>
      obtain ⟨ret', kv''⟩ := second
      simp only [init] at results
      cases gets : kvGet kv'' key.bytes size with
      | error halt => simp [gets] at results
      | ok got' =>
        simp only [gets] at results
        obtain ⟨rfl, rest⟩ := Prod.mk.inj (Except.ok.inj results)
        obtain ⟨rfl, rfl⟩ := Prod.mk.inj rest
        exact ⟨kv', kv'', rfl, init, gets⟩

theorem updateAfterMove_results :
    sessionThenReboot twoBlocks updateAfterMove keyA 1 =
      .ok ([1, 93, 93, 93, 93, 93, 1], 0, 1, [1]) := by
  decide +kernel

/-- **A reboot loses an update**: every call succeeds, the last one sets `a` to 2, and
after a reboot `a` is 1 again. -/
theorem reboot_loses_update :
    ∃ kv rets kv', kvInit plenty 50 (fun _ => blank) twoBlocks.num twoBlocks.size = .ok (0, kv) ∧
      run perform kv updateAfterMove = .ok (rets, kv') ∧ (∀ ret ∈ rets, ret ≠ -1) ∧
      ¬ Reboots twoBlocks kv'.flash (track record emptyMap updateAfterMove rets) := by
  obtain ⟨kv, start⟩ := kvInit_blank twoBlocks
  obtain ⟨kv', kv'', ran, init, gets⟩ := sessionThenReboot_ok updateAfterMove_results start
  refine ⟨kv, _, kv', start, ran, by decide, fun reboots => ?_⟩
  obtain ⟨ret, kv₂, init', same, -⟩ := reboots plenty 50
  obtain ⟨rfl, rfl⟩ := Prod.mk.inj (Except.ok.inj (init.symm.trans init'))
  exact absurd (Except.ok.inj (gets.symm.trans (same rfl keyA 1))) (by decide)

end Phy6212.Kv
