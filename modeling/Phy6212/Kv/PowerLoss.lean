import Phy6212.Kv.Relocation

/-!
# Power loss during `kv_set`

After a power cut in `kv_set` a start should find the old or the new contents, and the new ones once
the call has returned (`CrashSafe`).
-/

namespace Phy6212.Kv

open List NorFlash Runs

/-! ## Power cuts -/

/-- A power cut at any point of the call leaves an image that a start turns into the old or the new
contents. -/
def CrashSafe (g : Geometry) (map : Key → Option (List UInt8)) (key : Key) (value : List UInt8)
    (kv : Kvset) (call : Except Halt (Int × Kvset)) : Prop :=
  ∃ ret kv' ops, call = .ok (ret, kv') ∧ kv'.trace = kv.trace ++ ops ∧
    kv'.flash = replay kv.flash ops ∧
    Survives (fun flash => Reboots g flash map ∨
      Reboots g flash (Function.update map key (some value))) kv.flash ops ∧
    (ret ≠ -1 → Reboots g kv'.flash (Function.update map key (some value)))

abbrev OldOrNew (g : Geometry) (map : Key → Option (List UInt8)) (key : Key) (value : List UInt8)
    (logs : Nat → List Entry) : Prop :=
  Recovers g logs map ∨ Recovers g logs (Function.update map key (some value))

variable {g : Geometry} {kv₀ kv kv₁ : Kvset} {logs : Nat → List Entry}
  {map : Key → Option (List UInt8)} {key : Key} {value : List UInt8} {result : Bool × Kvnode}

theorem CrashSafe.of_evolves {ret : Int} (evolves : Evolves g (OldOrNew g map key value) kv kv₁)
    (final : ret ≠ -1 → ∃ logs, Image g kv₁.flash logs ∧
      Recovers g logs (Function.update map key (some value))) (cache : List CacheNode) :
    CrashSafe g map key value kv (.ok (ret, { kv₁ with cache := cache })) := by
  obtain ⟨ops, trace, flash, survives⟩ := evolves
  refine ⟨ret, _, ops, rfl, trace, flash, survives.mono ?_, fun success => ?_⟩
  · intro flash held
    obtain ⟨logs, image, old | new⟩ := held
    · exact .inl (old.reboots image)
    · exact .inr (new.reboots image)
  · obtain ⟨logs, image, recovers⟩ := final success
    exact recovers.reboots image

variable {places : Nat → Nat → UInt32 → Prop}

theorem afterPlace_returns {old : Option Kvnode}
    (cacheFor : CacheFor places (removeOld kv₁ old).cache)
    (named : ∀ node, old = some node → ∃ hash, places (node.block.getD 0) node.headOffset hash)
    (env : Env) (key : List UInt8) (size offset : Nat) :
    ∃ ret cache, afterPlace env kv₁ key size old offset =
      .ok (ret, { removeOld kv₁ old with cache := cache }) := by
  have returns : ∃ ret kv', afterPlace env kv₁ key size old offset = .ok (ret, kv') := by
    cases old with
    | none => exact ⟨_, _, afterPlace_none env kv₁ key size offset⟩
    | some node =>
      obtain ⟨hash, here⟩ := named node rfl
      obtain ⟨cache, out, -⟩ := kvCacheOut_spec cacheFor here
      exact ⟨_, _, afterPlace_some env out rfl key size offset⟩
  obtain ⟨ret, kv', returned⟩ := returns
  obtain ⟨-, cache, rfl⟩ := afterPlace_shape returned
  exact ⟨ret, cache, returned⟩

theorem kvSetAgain_crashSafe (start : Evolves g (OldOrNew g map key value) kv₀ kv)
    (ready : Ready g kv logs) (unique : Unique g logs) (contents : Contents g logs map)
    (accepted : ¬ Refused key value) (lookedUp : LookedUp g logs key result)
    (cacheFor : CacheFor places kv.cache) (named : ∀ node, oldNode result = some node →
      ∃ hash, places (node.block.getD 0) node.headOffset hash) (env : Env) :
    CrashSafe g map key value kv₀
      (kvSetAgain env kv key.bytes value (writtenVersion result) (oldNode result)) := by
  obtain ⟨gc, -, gcBid⟩ := ready.gc
  unfold kvSetAgain
  rcases place_stores ready unique contents accepted lookedUp env gcBid with
    ⟨offset, kv₁, placed, -, ⟨logs', ready', unique', contents'⟩, evolves, cache_eq⟩ | ⟨-, unplaced⟩
  · simp only [placed, bind, Except.bind]
    rw [← cache_eq] at cacheFor
    obtain ⟨ret, cache, returned⟩ := afterPlace_returns cacheFor named env key.bytes value.length offset
    rw [returned]
    refine CrashSafe.of_evolves (start.trans evolves) (fun _ => ?_) cache
    exact ⟨logs', ready'.rep.image, .inl ⟨unique', contents'⟩⟩
  · simp only [unplaced, bind, Except.bind]
    exact CrashSafe.of_evolves start (fun success => absurd rfl success) kv.cache

theorem kvCacheIn_heap {env : Env} (heap : ∀ n, env.cacheHeap n = true) (kv : Kvset)
    (key : List UInt8) (i off : Nat) : kvCacheIn env kv key i off ≠ (-1, kv) := by
  intro failed
  have zero : (kvCacheIn env kv key i off).1 = 0 := by
    cases slot : cacheSlot kv.cache (keyHash key) i off with
    | some k => simp only [kvCacheIn, slot]
    | none => simp only [kvCacheIn, slot, heap, if_true]
  rw [failed] at zero
  exact absurd zero (by simp)

theorem kvSetAgain_none (ready : Ready g kv logs) (accepted : ¬ Refused key value) {gc : Nat}
    (gcBid : kv.gcBid = some gc) (env : Env) (version : Nat) :
    (∃ j kv₁ ret cache, Fits g logs gc (nodeSize key value) j ∧
      kvSetAgain env kv key.bytes value version none = .ok (ret, { kv₁ with cache := cache }) ∧
      ((∀ n, env.cacheHeap n = true) → ret = value.length) ∧
      Rep g kv₁ (Function.update logs j (logs j ++ [newEntry key value version accepted])) ∧
      OneOp { kv with bid := j } kv₁) ∨
    ((¬ ∃ j, Fits g logs gc (nodeSize key value) j) ∧
      kvSetAgain env kv key.bytes value version none = .ok (-1, kv)) := by
  unfold kvSetAgain
  rcases @place_spec g kv logs gc (newEntry key value version accepted) ready env version rfl rfl
    gcBid with ⟨j, kv₁, fits, placed, rep₁, one⟩ | ⟨full, unplaced⟩
  · have placed' : placeLoop env key.bytes value version kv.bid kv.num kv = _ := placed
    simp only [placed', bind, Except.bind, afterPlace_none]
    left
    rcases kvCacheIn_shape env kv₁ key.bytes kv₁.bid _ with failed | ⟨cache, added⟩
    · rw [failed]
      refine ⟨j, kv₁, -1, kv₁.cache, fits, rfl, fun heap => ?_, rep₁, one⟩
      exact absurd failed (kvCacheIn_heap heap _ _ _ _)
    · rw [added]
      exact ⟨j, kv₁, value.length, cache, fits, rfl, fun _ => rfl, rep₁, one⟩
  · have unplaced' : placeLoop env key.bytes value version kv.bid kv.num kv = _ := unplaced
    simp only [unplaced', bind, Except.bind]
    exact .inr ⟨fun ⟨j, fits⟩ => full j fits, trivial⟩

section Behind

variable {gc i off : Nat} {e : Entry} (lives : Lives g logs i off e.moved) (unique : Unique g logs)
  (contents : Contents g logs map)

include lives unique contents

theorem recovers_behind {j : Nat} (within : j < g.num) (accepted : ¬ Refused e.key value)
    (notWrapped : e.version ≠ 254) :
    Recovers g (Function.update logs j (logs j ++
        [newEntry e.key value (nextVersion e.version + 1) accepted]))
      (Function.update map e.key (some value)) := by
  refine Recovers.append (n := newEntry e.key value _ accepted) unique
    contents within rfl ?_
  intro i' off' x xLives same
  rw [(unique.same xLives lives same).2.2]
  exact movedVersion_newer notWrapped

theorem recovers_wrapped {j : Nat} (within : j < g.num) (accepted : ¬ Refused e.key value)
    (wrapped : e.version = 254) :
    Recovers g (Function.update logs j (logs j ++
        [newEntry e.key value (nextVersion e.version + 1) accepted])) map := by
  refine Recovers.append_older (n := newEntry e.key value _ accepted) unique
    contents within rfl lives rfl ?_
  show olderNode _ (versionByte _) = _
  rw [wrapped]
  rfl

theorem kvSetAgain_behind (start : Evolves g (OldOrNew g map e.key value) kv₀ kv)
    (ready : Ready g kv logs) (accepted : ¬ Refused e.key value) (gcBid : kv.gcBid = some gc)
    (safe : e.version = 254 → e.value ≠ value → ¬ ∃ j, Fits g logs gc (nodeSize e.key value) j)
    (env : Env) :
    CrashSafe g map e.key value kv₀
      (kvSetAgain env kv e.key.bytes value (nextVersion e.version + 1) none) := by
  rcases kvSetAgain_none ready accepted gcBid env _ with
    ⟨j, kv₁, ret, cache, fits, returned, -, rep₁, one⟩ | ⟨-, returned⟩
  · have recovers : Recovers g (Function.update logs j (logs j ++
        [newEntry e.key value (nextVersion e.version + 1) accepted]))
          (Function.update map e.key (some value)) := by
      by_cases wrapped : e.version = 254
      · have same : e.value = value := by
          by_contra differ
          exact safe wrapped differ ⟨j, fits⟩
        have stored := contents.of_lives lives
        rw [Entry.moved_key, Entry.moved_value, same] at stored
        have unchanged : Function.update map e.key (some value) = map := by
          rw [← stored, Function.update_eq_self]
        rw [unchanged]
        exact recovers_wrapped lives unique contents fits.1 accepted wrapped
      · exact recovers_behind lives unique contents fits.1 accepted wrapped
    rw [returned]
    have before : OldOrNew g map e.key value logs := .inl (.inl ⟨unique, contents⟩)
    have step : Evolves g (OldOrNew g map e.key value) kv kv₁ := by
      have := Evolves.step (P := OldOrNew g map e.key value) (ready.rep.setBid j) rep₁ one before
        (.inr recovers)
      exact this
    exact CrashSafe.of_evolves (start.trans step) (fun _ => ⟨_, rep₁.image, recovers⟩) cache
  · rw [returned]
    exact CrashSafe.of_evolves start (fun success => absurd rfl success) kv.cache

end Behind

/-! ## The whole call -/

theorem getResult_inj {a b : Option (List UInt8)}
    (same : ∀ size, getResult size a = getResult size b) : a = b := by
  cases a with
  | none =>
    cases b with
    | none => rfl
    | some w => simpa [getResult] using same 0
  | some v =>
    cases b with
    | none => simpa [getResult] using same 0
    | some w =>
      have taken := same (v.length + w.length)
      simp only [getResult, Prod.mk.injEq] at taken
      rw [take_of_length_le (by omega), take_of_length_le (by omega)] at taken
      rw [taken.2]

theorem Reboots.unique {flash : Mem} {map' : Key → Option (List UInt8)}
    (first : Reboots g flash map) (second : Reboots g flash map') : map = map' := by
  obtain ⟨ret, kv, init, got, failed⟩ := first plenty 50
  obtain ⟨ret', kv', init', got', -⟩ := second plenty 50
  obtain ⟨rfl, rfl⟩ := Prod.mk.inj (Except.ok.inj (init.symm.trans init'))
  have zero : ret = 0 := by
    by_contra nonzero
    rcases failed nonzero with impossible | ⟨n, impossible⟩ <;> simp [plenty] at impossible
  funext key
  apply getResult_inj
  intro size
  exact Except.ok.inj ((got zero key size).symm.trans (got' zero key size))

def nextGc (g : Geometry) (logs : Nat → List Entry) (gc : Nat) : Nat :=
  (planOf g logs gc).getLast?.getD gc

/-- The stored entry of the key has version 254 and another value, the collection
moves it, and afterwards a block takes the new node. -/
def Wraps (g : Geometry) (logs : Nat → List Entry) (gc : Nat) (key : Key) (value : List UInt8) :
    Prop :=
  ∃ i off e, Lives g logs i off e ∧ e.key = key ∧ e.version = 254 ∧ e.value ≠ value ∧
    i ∈ planOf g logs gc ∧ ∃ j, Fits g (collect g logs gc) (nextGc g logs gc) (nodeSize key value) j

/-- `kv_set` refuses its arguments, finds room without a collection, or sets a key
that is not stored; or the collection leads to no misread place and no wrapped
version. -/
def Sound (g : Geometry) (logs : Nat → List Entry) (gc : Nat) (key : Key) (value : List UInt8) :
    Prop :=
  Refused key value ∨ (∃ j, Fits g logs gc (nodeSize key value) j) ∨
    (∀ value', ¬ Maps g logs key value') ∨
    (¬ Misread g logs gc key ∧ ¬ Wraps g logs gc key value)

section Calls

variable {g : Geometry} {kv : Kvset} {logs : Nat → List Entry}
  {map : Key → Option (List UInt8)} {key : Key} {value : List UInt8} {gc : Nat}
  (ready : Ready g kv logs) (unique : Unique g logs) (contents : Contents g logs map)
  (cacheOk : CacheOk g logs kv.cache) (gcBid : kv.gcBid = some gc)

include ready unique contents cacheOk gcBid

theorem kvSet_room_crashSafe (accepted : ¬ Refused key value)
    (room : ∃ j, Fits g logs gc (nodeSize key value) j) (env : Env) :
    CrashSafe g map key value kv (kvSet env kv key.bytes value) := by
  obtain ⟨result, found, lookedUp⟩ := kvFind_lookedUp ready.rep cacheOk unique key
  have still : Evolves g (OldOrNew g map key value) kv kv :=
    .still ready.rep (.inl (.inl ⟨unique, contents⟩)) rfl rfl
  have named : ∀ node, oldNode result = some node →
      ∃ hash, Hashed g logs (node.block.getD 0) node.headOffset hash := by
    intro node old
    rcases lookedUp with ⟨i, off, e, lives, -, rfl⟩ | ⟨-, missing⟩
    · obtain rfl := Option.some.inj old
      exact ⟨_, e, lives, rfl⟩
    · rw [oldNode, missing, if_neg Bool.false_ne_true] at old
      exact absurd old.symm (Option.some_ne_none node)
  have again := kvSetAgain_crashSafe still ready unique contents accepted lookedUp cacheOk named env
  rcases place_stores ready unique contents accepted lookedUp env gcBid with
    ⟨offset, kv₁, placed, -⟩ | ⟨full, -⟩
  · rw [kvSet_placed accepted found placed]
    simp only [kvSetAgain, placed, bind, Except.bind] at again
    exact again
  · exact absurd room full

theorem kvSet_new_crashSafe (accepted : ¬ Refused key value)
    (full : ¬ ∃ j, Fits g logs gc (nodeSize key value) j)
    (absent : ∀ value', ¬ Maps g logs key value') (env : Env) :
    CrashSafe g map key value kv (kvSet env kv key.bytes value) := by
  obtain ⟨node, missing⟩ := kvFind_missing ready.rep cacheOk absent {}
  have lookedUp : LookedUp g logs key (false, node) := .inr ⟨absent, rfl⟩
  obtain ⟨kv₁, collected, gcBid₁, bid₁, cache₁, ready₁, unique₁, contents₁, evolves⟩ :=
    kvGc_spec env ready unique contents gcBid
  have start : Evolves g (OldOrNew g map key value) kv kv₁ := evolves.mono fun _ => .inl
  rcases place_stores ready unique contents accepted lookedUp env gcBid with
    ⟨offset, kv₂, -, room, -⟩ | ⟨-, unplaced⟩
  · exact absurd room full
  rw [kvSet_full accepted missing unplaced collected]
  cases (planOf g logs gc).isEmpty with
  | true => exact CrashSafe.of_evolves start (fun success => absurd rfl success) kv₁.cache
  | false =>
    rw [← cache₁] at cacheOk
    exact kvSetAgain_crashSafe start ready₁ unique₁ contents₁ accepted
      (LookedUp.collected absent contents contents₁) cacheOk
      (fun node old => absurd old.symm (Option.some_ne_none node)) env

variable {i off : Nat} {e : Entry}

section

variable (lives : Lives g logs i off e)

include lives

theorem kvSet_collects (accepted : ¬ Refused e.key value)
    (full : ¬ ∃ j, Fits g logs gc (nodeSize e.key value) j) (clear : ¬ Misread g logs gc e.key)
    (env : Env) :
    ∃ kv₁, kv₁.gcBid = some (nextGc g logs gc) ∧ kv₁.cache = kv.cache ∧
      Ready g kv₁ (collect g logs gc) ∧ Unique g (collect g logs gc) ∧
      Contents g (collect g logs gc) map ∧ Evolves g (fun l => Recovers g l map) kv kv₁ ∧
      kvSet env kv e.key.bytes value =
        if i ∈ planOf g logs gc then
          kvSetAgain env kv₁ e.key.bytes value (nextVersion e.version + 1) none
        else if (planOf g logs gc).isEmpty then .ok (-1, kv₁)
        else kvSetAgain env kv₁ e.key.bytes value (nextVersion e.version) (some (e.node i off)) := by
  have found := kvFind_found ready.rep cacheOk unique lives {}
  have lookedUp : LookedUp g logs e.key (true, e.node i off) := .inl ⟨i, off, e, lives, rfl, rfl⟩
  have gcWithin : gc < g.num := by
    obtain ⟨gc', within, equal⟩ := ready.gc
    rw [gcBid] at equal
    rwa [Option.some.inj equal]
  obtain ⟨kv₁, collected, gcBid₁, bid₁, cache₁, ready₁, unique₁, contents₁, evolves⟩ :=
    kvGc_spec env ready unique contents gcBid
  refine ⟨kv₁, gcBid₁, cache₁, ready₁, unique₁, contents₁, evolves, ?_⟩
  -- the cache names the place of the entry, and only places of entries with its hash
  have sound : ∀ c ∈ kv.cache, Consulted e.key c → Hashed g logs c.blockId c.offset c.hash := by
    intro c member consulted
    rcases cacheOk.sound c member with unused | hashed
    · exact absurd (unused_iff.mp unused).2 consulted.2.1
    · exact hashed
  have named : ∃ c ∈ kv.cache, Consulted e.key c ∧ c.blockId = i ∧ c.offset = off := by
    obtain ⟨c, member, rfl, rfl⟩ := cacheOk.complete ⟨e, lives, rfl⟩
    have bounds := ready.rep.place_bounds lives
    rcases cacheOk.sound c member with unused | ⟨e', lives', hash⟩
    · exact absurd (unused_iff.mp unused).2 (by omega)
    · rw [← lives.entry_unique lives'] at hash
      exact ⟨c, member, ⟨hash, by omega, by omega⟩, rfl, rfl⟩
  obtain ⟨stays, misses⟩ := findLoop_collected ready.rep ready₁.rep gcWithin unique lives clear
    kv.cache _ sound ⟨i, off, e, lives, rfl, rfl⟩
  rcases place_stores ready unique contents accepted lookedUp env gcBid with
    ⟨offset, kv₂, -, room, -⟩ | ⟨-, unplaced⟩
  · exact absurd room full
  rw [kvSet_full accepted found unplaced collected]
  by_cases moved : i ∈ planOf g logs gc
  · obtain ⟨node, missed⟩ := misses moved
    have again : kvFind kv₁ e.key.bytes (e.node i off) = .ok (false, node) := by
      rw [kvFind, cache₁, missed]
    have some_moved : (planOf g logs gc).isEmpty = false := by
      cases plan : planOf g logs gc with
      | nil =>
        rw [plan] at moved
        exact absurd moved not_mem_nil
      | cons => rfl
    rw [if_pos moved, some_moved]
    simp only [Bool.not_false, if_true, again, bind, Except.bind]
    rfl
  have again : kvFind kv₁ e.key.bytes (e.node i off) = .ok (true, e.node i off) := by
    rw [kvFind, cache₁, stays moved named]
  rw [if_neg moved]
  cases (planOf g logs gc).isEmpty with
  | true => rfl
  | false =>
    simp only [Bool.not_false, if_true, again, bind, Except.bind]
    rfl

theorem kvSet_stored_crashSafe (accepted : ¬ Refused e.key value)
    (full : ¬ ∃ j, Fits g logs gc (nodeSize e.key value) j) (clear : ¬ Misread g logs gc e.key)
    (even : ¬ Wraps g logs gc e.key value) (env : Env) :
    CrashSafe g map e.key value kv (kvSet env kv e.key.bytes value) := by
  obtain ⟨kv₁, gcBid₁, cache₁, ready₁, unique₁, contents₁, evolves, call⟩ :=
    kvSet_collects ready unique contents cacheOk gcBid lives accepted full clear env
  have start : Evolves g (OldOrNew g map e.key value) kv kv₁ := evolves.mono fun _ => .inl
  obtain ⟨gc', gcWithin, gcBid'⟩ := ready.gc
  obtain rfl := Option.some.inj (gcBid.symm.trans gcBid')
  rw [call]
  split
  · next moved =>
    obtain ⟨-, off', lives₁⟩ := lives_collect_moved gcWithin moved lives
    refine kvSetAgain_behind lives₁ unique₁ contents₁ start ready₁ accepted gcBid₁ ?_ env
    intro wrapped differ fits
    exact even ⟨i, off, e, lives, rfl, wrapped, differ, moved, fits⟩
  · next stays =>
    split
    · exact CrashSafe.of_evolves start (fun success => absurd rfl success) kv₁.cache
    have lives₁ := lives_collect_keep stays lives
    rw [← cache₁] at cacheOk
    refine kvSetAgain_crashSafe start ready₁ unique₁ contents₁ accepted
      (.inl ⟨i, off, e, lives₁, rfl, rfl⟩) cacheOk ?_ env
    intro node old
    obtain rfl := Option.some.inj old
    exact ⟨_, e, lives, rfl⟩

theorem kvSet_wraps (accepted : ¬ Refused e.key value)
    (full : ¬ ∃ j, Fits g logs gc (nodeSize e.key value) j) (clear : ¬ Misread g logs gc e.key)
    (wraps : Wraps g logs gc e.key value) :
    ∃ kv', kvSet plenty kv e.key.bytes value = .ok (value.length, kv') ∧
      Reboots g kv'.flash map := by
  obtain ⟨i', off', e', lives', key_eq, wrapped, -, moved, fits⟩ := wraps
  obtain ⟨rfl, rfl, rfl⟩ := unique.same lives' lives key_eq
  obtain ⟨kv₁, gcBid₁, -, ready₁, unique₁, contents₁, -, call⟩ :=
    kvSet_collects ready unique contents cacheOk gcBid lives accepted full clear plenty
  obtain ⟨gc', gcWithin, gcBid'⟩ := ready.gc
  obtain rfl := Option.some.inj (gcBid.symm.trans gcBid')
  obtain ⟨-, off', lives₁⟩ := lives_collect_moved gcWithin moved lives
  rw [call, if_pos moved]
  rcases kvSetAgain_none ready₁ accepted gcBid₁ plenty _ with
    ⟨j, kv₂, ret, cache, here, returned, success, rep₂, -⟩ | ⟨noRoom, -⟩
  · obtain rfl := success fun _ => rfl
    refine ⟨_, returned, Recovers.reboots ?_ rep₂.image⟩
    exact recovers_wrapped lives₁ unique₁ contents₁ here.1 accepted wrapped
  · exact absurd fits noRoom

end

theorem wraps_not_crashSafe (accepted : ¬ Refused key value)
    (full : ¬ ∃ j, Fits g logs gc (nodeSize key value) j) (clear : ¬ Misread g logs gc key)
    (wraps : Wraps g logs gc key value) :
    ¬ CrashSafe g map key value kv (kvSet plenty kv key.bytes value) := by
  intro safe
  obtain ⟨i, off, e, lives, rfl, -, differ, -⟩ := id wraps
  obtain ⟨kv', returned, old⟩ :=
    kvSet_wraps ready unique contents cacheOk gcBid lives accepted full clear wraps
  obtain ⟨ret, kv'', ops, returned', -, -, -, new⟩ := safe
  obtain ⟨rfl, rfl⟩ := Prod.mk.inj (Except.ok.inj (returned.symm.trans returned'))
  have same := congrFun (old.unique (new (by simp))) e.key
  rw [contents.of_lives lives, Function.update_self] at same
  exact differ (Option.some.inj same)

end Calls

/-- **When a `kv_set` survives every power cut.** -/
theorem kvSet_crashSafe {g : Geometry} {flash : Mem} {logs : Nat → List Entry}
    {map : Key → Option (List UInt8)} (image : Image g flash logs) (unique : Unique g logs)
    (contents : Contents g logs map) {i : Nat} (within : i < g.num) (roomy : 4 < freeSize g logs i)
    {env₀ : Env} {cachedSize : Nat} {kv : Kvset}
    (start : kvInit env₀ cachedSize flash g.num g.size = .ok (0, kv)) (key : Key)
    (value : List UInt8) :
    ∃ gc, kv.gcBid = some gc ∧
      (Sound g logs gc key value → ∀ env, CrashSafe g map key value kv
        (kvSet env kv key.bytes value)) ∧
      (¬ Misread g logs gc key → (∀ env, CrashSafe g map key value kv
        (kvSet env kv key.bytes value)) → Sound g logs gc key value) := by
  have booted := image.booted unique start
  have ready := booted.ready within roomy
  have cacheOk := booted.cacheOk
  obtain ⟨gc, -, gcBid⟩ := ready.gc
  refine ⟨gc, gcBid, fun sound env => ?_, fun clear safe => ?_⟩
  · by_cases refused : Refused key value
    · rw [kvSet_refused refused]
      have still : Evolves g (OldOrNew g map key value) kv kv :=
        .still ready.rep (.inl (.inl ⟨unique, contents⟩)) rfl rfl
      exact CrashSafe.of_evolves still (fun success => absurd rfl success) kv.cache
    by_cases room : ∃ j, Fits g logs gc (nodeSize key value) j
    · exact kvSet_room_crashSafe ready unique contents cacheOk gcBid refused room env
    rcases maps_or_absent g logs key with ⟨i', off, e, lives, rfl⟩ | absent
    · obtain ⟨clear, even⟩ : ¬ Misread g logs gc e.key ∧ ¬ Wraps g logs gc e.key value := by
        rcases sound with refused' | room' | absent | both
        · exact absurd refused' refused
        · exact absurd room' room
        · exact absurd ⟨i', off, e, lives, rfl, rfl⟩ (absent e.value)
        · exact both
      exact kvSet_stored_crashSafe ready unique contents cacheOk gcBid lives refused room clear
        even env
    · exact kvSet_new_crashSafe ready unique contents cacheOk gcBid refused room absent env
  · by_contra unsound
    simp only [Sound, not_or] at unsound
    obtain ⟨accepted, full, -, wraps⟩ := unsound
    have wraps : Wraps g logs gc key value := by
      by_contra even
      exact wraps ⟨clear, even⟩
    exact wraps_not_crashSafe ready unique contents cacheOk gcBid accepted full clear wraps
      (safe plenty)

theorem kvSet_crashSafe_first :
    ∃ kv, kvInit plenty 50 (fun _ => blank) twoBlocks.num twoBlocks.size = .ok (0, kv) ∧
      ∀ env, CrashSafe twoBlocks emptyMap keyA [1] kv (kvSet env kv keyA.bytes [1]) := by
  obtain ⟨kv, start⟩ := kvInit_blank twoBlocks
  obtain ⟨gc, -, safe, -⟩ := kvSet_crashSafe (i := 0) (erased_blank twoBlocks).image unique_nil
    contents_nil (by decide) (by decide) start keyA [1]
  refine ⟨kv, start, safe (.inr (.inr (.inl ?_)))⟩
  intro value maps
  obtain ⟨i, off, e, lives, -⟩ := maps
  exact lives_nil lives

/-! ## Two blocks of 4096 bytes, worn out by one key -/

def twoSectors : Geometry where
  num := 2
  size := 4096
  two := twoBlocks.two
  large := by decide
  small := by decide
  words := by decide
  mapped := by decide

def oneLog (b : Nat) (log : List Entry) : Nat → List Entry := Function.update (fun _ => []) b log

/-- A store on two blocks: block `b` holds the log, and the other one is kept free. -/
structure Worn (b : Nat) (kv : Kvset) (log : List Entry) (map : Key → Option (List UInt8)) :
    Prop where
  within : b < 2
  ready : Ready twoSectors kv (oneLog b log)
  unique : Unique twoSectors (oneLog b log)
  contents : Contents twoSectors (oneLog b log) map
  cacheOk : CacheOk twoSectors (oneLog b log) kv.cache
  gcBid : kv.gcBid = some (1 - b)

variable {b : Nat} {kv : Kvset} {log : List Entry} {map : Key → Option (List UInt8)} {key : Key}
  {value : List UInt8}

theorem oneLog_self : oneLog b log b = log := Function.update_self ..

theorem oneLog_append (n : Entry) :
    Function.update (oneLog b log) b (oneLog b log b ++ [n]) = oneLog b (log ++ [n]) := by
  rw [oneLog_self]
  exact Function.update_idem ..

theorem Worn.set (worn : Worn b kv log map) (accepted : ¬ Refused key value)
    (room : logSize log + nodeSize key value + 4 ≤ 4096)
    (found : kvFind kv key.bytes {} = .ok result)
    (lookedUp : LookedUp twoSectors (oneLog b log) key result) {log' : List Entry}
    (writes : ∀ kv₁, Rep twoSectors kv₁
        (oneLog b (log ++ [newEntry key value (writtenVersion result) accepted])) →
      OneOp { kv with bid := b } kv₁ →
      Written twoSectors kv (oneLog b log) (newEntry key value (writtenVersion result) accepted) b
        (removeOld kv₁ (oldNode result)) (oneLog b log')) :
    ∃ kv', perform kv (plenty, .set key value) = .ok (value.length, kv') ∧
      Worn b kv' log' (Function.update map key (some value)) := by
  have fits : Fits twoSectors (oneLog b log) (1 - b) (nodeSize key value) b := by
    refine ⟨worn.within, ?_, ?_⟩
    · omega
    · rw [oneLog_self]
      exact room
  rcases @place_spec twoSectors kv _ _
    (newEntry key value _ accepted) worn.ready plenty (writtenVersion result)
    rfl rfl worn.gcBid with ⟨j, kv₁, here, placed, rep₁, one⟩ | ⟨full, -⟩
  · have same : j = b := by
      have := here.1
      have := here.2.1
      have := worn.within
      have : twoSectors.num = 2 := rfl
      omega
    subst same
    rw [oneLog_append] at rep₁
    have written := writes kv₁ rep₁ one
    obtain ⟨ret, kv', returned, success⟩ := afterPlace_cacheOk plenty value.length worn.unique
      worn.cacheOk lookedUp written
    obtain ⟨rfl, cacheOk⟩ := success (.inr (.inr rfl))
    obtain ⟨-, cache, rfl⟩ := afterPlace_shape returned
    refine ⟨_, (kvSet_placed accepted found placed).trans returned, worn.within,
      ⟨written.rep.setCache cache, ?_, 1 - j, ?_, ?_⟩, written.replaces.unique worn.unique,
      written.replaces.contents worn.contents, cacheOk, ?_⟩
    · exact written.bid.trans_lt worn.within
    · have : twoSectors.num = 2 := rfl
      omega
    · exact written.gcBid.trans worn.gcBid
    · exact written.gcBid.trans worn.gcBid
  · exact absurd fits (full b)

theorem Worn.set_new (worn : Worn b kv log map) (accepted : ¬ Refused key value)
    (room : logSize log + nodeSize key value + 4 ≤ 4096)
    (absent : ∀ value, ¬ Maps twoSectors (oneLog b log) key value) :
    ∃ kv', perform kv (plenty, .set key value) = .ok (value.length, kv') ∧
      Worn b kv' (log ++ [newEntry key value 1 accepted]) (Function.update map key (some value)) := by
  obtain ⟨node, missing⟩ := kvFind_missing worn.ready.rep worn.cacheOk absent {}
  refine worn.set accepted room missing (.inr ⟨absent, rfl⟩) ?_
  intro kv₁ rep₁ one
  rw [← oneLog_append] at rep₁ ⊢
  exact Written.new rfl worn.within rep₁ one absent

theorem Worn.set_over {dead : List Entry} {e : Entry} (worn : Worn b kv (dead ++ [e]) map)
    (live : e.live = true) (accepted : ¬ Refused e.key value)
    (room : logSize (dead ++ [e]) + nodeSize e.key value + 4 ≤ 4096) :
    ∃ kv', perform kv (plenty, .set e.key value) = .ok (value.length, kv') ∧
      Worn b kv' (dead ++ [e.kill] ++ [newEntry e.key value (nextVersion e.version) accepted])
        (Function.update map e.key (some value)) := by
  have lives : Lives twoSectors _ b _ e :=
    ⟨worn.within, live, dead, [], oneLog_self, rfl⟩
  refine worn.set accepted room (kvFind_found worn.ready.rep worn.cacheOk worn.unique lives {})
    (.inl ⟨b, _, e, lives, rfl, rfl⟩) ?_
  intro kv₁ rep₁ one
  have log_eq : Function.update (oneLog b (dead ++ [e])) b (oneLog b (dead ++ [e]) b ++
      [newEntry e.key value (nextVersion e.version) accepted]) b =
        dead ++ e :: [newEntry e.key value (nextVersion e.version) accepted] := by
    rw [oneLog_append, oneLog_self]
    simp
  have removed : removeEntry dead e [newEntry e.key value (nextVersion e.version) accepted] =
      dead ++ [e.kill] ++ [newEntry e.key value (nextVersion e.version) accepted] := by
    unfold removeEntry
    rw [if_pos]
    · simp
    · rw [liveLog_split live, liveLog_cons_live [] rfl]
      simp only [length_append, length_cons]
      omega
  have written := (Written.over worn.unique (n := newEntry e.key value _ accepted)
    rfl worn.within (by rw [oneLog_append]; exact rep₁) one lives rfl log_eq rfl).1
  rw [removed, oneLog, Function.update_idem, Function.update_idem] at written
  exact written

def entryA (version : Nat) : Entry := newEntry keyA [1, 1, 1, 1] version (by decide)

theorem entryA_size (version : Nat) : (entryA version).size = 16 := by
  show nodeSize keyA [1, 1, 1, 1] = 16
  rfl

theorem Worn.repeat_set (more : Nat) (kv : Kvset) (dead : List Entry) (version : Nat)
    (map : Key → Option (List UInt8)) (worn : Worn b kv (dead ++ [entryA version]) map)
    (positive : 0 < version) (few : version + more < 255) (alldead : liveLog dead = [])
    (size : logSize dead + 16 = 16 * version) :
    ∃ kv' dead', Worn b kv' (dead' ++ [entryA (version + more)])
        (Function.update map keyA (some [1, 1, 1, 1])) ∧
      liveLog dead' = [] ∧ logSize dead' + 16 = 16 * (version + more) ∧
      ∀ calls rets kv'', run perform kv' calls = .ok (rets, kv'') →
        run perform kv (replicate more (plenty, .set keyA [1, 1, 1, 1]) ++ calls) =
          .ok (replicate more 4 ++ rets, kv'') := by
  induction more generalizing kv dead version map with
  | zero =>
    refine ⟨kv, dead, ?_, alldead, size, fun _ _ _ ran => ran⟩
    have stored : map keyA = some [1, 1, 1, 1] := by
      have lives : Lives twoSectors _ b _
          (entryA version) := ⟨worn.within, rfl, dead, [], oneLog_self, rfl⟩
      exact worn.contents.of_lives lives
    rw [← stored, Function.update_eq_self]
    exact worn
  | succ more ih =>
    have accepted : ¬ Refused keyA [1, 1, 1, 1] := by decide
    have last : logSize (dead ++ [entryA version]) = 16 * version := by
      rw [logSize_append, logSize_cons, entryA_size, logSize_nil, ← size]
    have fits : 16 * version + nodeSize keyA [1, 1, 1, 1] + 4 ≤ 4096 := by
      rw [show nodeSize keyA [1, 1, 1, 1] = 16 from rfl]
      omega
    obtain ⟨kv₁, first, worn₁⟩ := @Worn.set_over b kv map [1, 1, 1, 1] dead _ worn rfl
      accepted (by rw [last]; exact fits)
    have next : newEntry (entryA version).key [1, 1, 1, 1] (nextVersion (entryA version).version)
        accepted = entryA (version + 1) := by
      have byte : (versionByte version).toNat = version := versionByte_toNat (by omega)
      have counter : nextVersion (versionByte version) = version + 1 := by
        unfold nextVersion
        rw [if_neg, byte]
        intro equal
        rw [equal] at byte
        have : (255 : UInt8).toNat = 255 := rfl
        omega
      show newEntry keyA [1, 1, 1, 1] (nextVersion (versionByte version)) accepted = _
      rw [counter]
      rfl
    rw [next] at worn₁
    obtain ⟨kv', dead', worn', alldead', size', ran'⟩ := ih kv₁ _ _ _ worn₁ (by omega) (by omega)
      (by rw [liveLog_append, alldead]; rfl)
      (by rw [logSize_append, logSize_cons, Entry.kill_size, entryA_size, logSize_nil]; omega)
    refine ⟨kv', dead', ?_, alldead', ?_, ?_⟩
    · rw [show version + (more + 1) = version + 1 + more by omega]
      have same : Function.update (Function.update map (entryA version).key (some [1, 1, 1, 1])) keyA
          _ = Function.update map keyA (some [1, 1, 1, 1]) :=
        Function.update_idem ..
      rw [same] at worn'
      exact worn'
    · omega
    · intro calls rets kv'' ran
      exact run_cons first (ran' calls rets kv'' ran)

theorem lives_oneLog {i off : Nat} {e : Entry} (lives : Lives twoSectors (oneLog b log) i off e) :
    i = b ∧ e ∈ liveLog log := by
  obtain ⟨-, live, before, after, log_eq, -⟩ := lives
  rcases eq_or_ne i b with rfl | other
  · rw [oneLog_self] at log_eq
    rw [log_eq, liveLog_split live]
    simp
  · rw [oneLog, Function.update_of_ne other] at log_eq
    exact absurd log_eq (by simp)

def wearingCalls : List (Env × Call) :=
  (plenty, .set keyA [1, 1, 1, 1]) :: (replicate 253 (plenty, .set keyA [1, 1, 1, 1]) ++
    [(plenty, .set keyB [1, 1, 1, 1])])

def entryB : Entry := newEntry keyB [1, 1, 1, 1] 1 (by decide)

theorem wearingCalls_worn :
    ∃ b kv kv' rets dead map, kvInit plenty 50 (fun _ => blank) twoSectors.num twoSectors.size =
        .ok (0, kv) ∧
      run perform kv wearingCalls = .ok (rets, kv') ∧ (∀ ret ∈ rets, ret = 4) ∧
      Worn b kv' (dead ++ [entryA 254] ++ [entryB]) map ∧ liveLog dead = [] ∧
      logSize dead = 16 * 253 := by
  obtain ⟨kv, start⟩ := kvInit_blank twoSectors
  have booted := (erased_blank twoSectors).image.booted unique_nil start
  have ready := booted.ready (i := 0) (by decide) (by decide)
  obtain ⟨gc, gcWithin, gcBid⟩ := ready.gc
  have two : gc < 2 := gcWithin
  have empty : oneLog (1 - gc) [] = fun _ => [] := Function.update_eq_self ..
  have worn : Worn (1 - gc) kv [] emptyMap := by
    refine ⟨by omega, ?_, ?_, ?_, ?_, ?_⟩
    · rwa [empty]
    · rw [empty]
      exact unique_nil
    · rw [empty]
      exact contents_nil
    · rw [empty]
      exact booted.cacheOk
    · rw [gcBid, show 1 - (1 - gc) = gc by omega]
  have absent : ∀ value, ¬ Maps twoSectors (oneLog (1 - gc) []) keyA value := by
    intro value maps
    rw [empty] at maps
    obtain ⟨i, off, e, lives, -⟩ := maps
    exact lives_nil lives
  have acceptedA : ¬ Refused keyA [1, 1, 1, 1] := by decide
  have acceptedB : ¬ Refused keyB [1, 1, 1, 1] := by decide
  obtain ⟨kv₁, first, worn₁⟩ := worn.set_new acceptedA (by decide) absent
  obtain ⟨kv₂, dead, worn₂, alldead, size, ran⟩ := Worn.repeat_set 253 kv₁ [] 1 _ worn₁ (by omega)
    (by omega) rfl rfl
  have absentB : ∀ value, ¬ Maps twoSectors (oneLog (1 - gc) (dead ++ [entryA 254])) keyB value := by
    intro value maps
    obtain ⟨i, off, e, lives, key_eq, -⟩ := maps
    have member := (lives_oneLog lives).2
    rw [liveLog_append, alldead] at member
    rw [mem_singleton.mp member] at key_eq
    exact absurd key_eq (by decide)
  obtain ⟨kv₃, last, worn₃⟩ := worn₂.set_new acceptedB (by
    rw [logSize_append, logSize_cons, entryA_size, logSize_nil, size]
    decide) absentB
  refine ⟨1 - gc, kv, kv₃, _, dead, _, start, run_cons first (ran _ [4] kv₃ (run_cons last rfl)), ?_,
    worn₃, alldead, by omega⟩
  intro ret member
  simp only [mem_cons, mem_append, mem_replicate, not_mem_nil, or_false] at member
  rcases member with same | ⟨-, same⟩ | same <;> exact same

theorem planOf_oneLog (within : b < 2) (some_used : 0 < logSize (liveLog log))
    (short : logSize (liveLog log) < 4096) : planOf twoSectors (oneLog b log) (1 - b) = [b] := by
  have used : usedSize (oneLog b log) = Function.update (fun _ => 0) b (logSize (liveLog log)) := by
    funext i
    rcases eq_or_ne i b with rfl | other
    · rw [Function.update_self, usedSize, oneLog_self]
    · rw [Function.update_of_ne other, usedSize, oneLog, Function.update_of_ne other]
      rfl
  have free : freeSize twoSectors (oneLog b log) (1 - b) = 4096 := by
    unfold freeSize oneLog
    rw [Function.update_of_ne (by omega)]
    rfl
  unfold planOf
  rw [used, free]
  have cases_ : b = 0 ∨ b = 1 := by omega
  rcases cases_ with rfl | rfl <;>
    simp [collectPlan, leastUsed, twoSectors, range_succ, some_used, short, Function.update]

theorem wrapped_version_loses_update :
    ∃ kv kv' rets logs map kv₂, kvInit plenty 50 (fun _ => blank) twoSectors.num twoSectors.size =
        .ok (0, kv) ∧
      run perform kv wearingCalls = .ok (rets, kv') ∧ (∀ ret ∈ rets, ret = 4) ∧
      Image twoSectors kv'.flash logs ∧ Unique twoSectors logs ∧ Contents twoSectors logs map ∧
      kvInit plenty 50 kv'.flash twoSectors.num twoSectors.size = .ok (0, kv₂) ∧
      ¬ CrashSafe twoSectors map keyA [2, 2, 2, 2] kv₂ (kvSet plenty kv₂ keyA.bytes [2, 2, 2, 2]) := by
  obtain ⟨b, kv, kv', rets, dead, map, start, ran, success, worn, alldead, size⟩ := wearingCalls_worn
  have image := worn.ready.rep.image
  obtain ⟨ret, kv₂, init, booted, failed⟩ := kvInit_spec image plenty 50
  have zero : ret = 0 := by
    by_contra nonzero
    rcases failed nonzero with impossible | ⟨n, impossible⟩ <;> simp [plenty] at impossible
  subst zero
  refine ⟨kv, kv', rets, _, map, kv₂, start, ran, success, image, worn.unique, worn.contents, init, ?_⟩
  obtain ⟨logs', booted⟩ := booted rfl
  obtain ⟨rfl, -⟩ := booted.idle worn.unique
  have within := worn.within
  -- the sizes of the log and of its live entries
  have live : liveLog (dead ++ [entryA 254] ++ [entryB]) = [entryA 254, entryB] := by
    rw [liveLog_append, liveLog_append, alldead]
    rfl
  have used : logSize [entryA 254, entryB] = 32 := rfl
  have full : logSize (dead ++ [entryA 254] ++ [entryB]) = 4080 := by
    rw [logSize_append, logSize_append, size]
    rfl
  have lives : Lives twoSectors (oneLog b (dead ++ [entryA 254] ++ [entryB])) b _
      (entryA 254) := ⟨within, rfl, dead, [entryB], by rw [oneLog_self]; simp, rfl⟩
  -- the empty block is kept free again
  have freeFull : freeSize twoSectors (oneLog b (dead ++ [entryA 254] ++ [entryB])) b = 16 := by
    rw [freeSize, oneLog_self, full]
    rfl
  have freeEmpty : freeSize twoSectors (oneLog b (dead ++ [entryA 254] ++ [entryB])) (1 - b) =
      4096 := by
    rw [freeSize, oneLog, Function.update_of_ne (by omega)]
    rfl
  have other : 1 - b < twoSectors.num := by
    show 1 - b < 2
    omega
  have ready := booted.ready other (by omega)
  obtain ⟨gc, gcWithin, gcBid⟩ := ready.gc
  have gc_eq : gc = 1 - b := by
    have most := booted.freest gcBid other
    have two : gc < 2 := gcWithin
    by_contra differ
    rw [show gc = b by omega] at most
    omega
  subst gc_eq
  have plan := @planOf_oneLog b _ within (by rw [live, used]; omega)
    (by rw [live, used]; omega)
  refine wraps_not_crashSafe ready worn.unique worn.contents booted.cacheOk gcBid (by decide) ?_ ?_ ?_
  · intro room
    obtain ⟨j, jWithin, notTarget, fits⟩ := room
    have two : j < 2 := jWithin
    rw [show j = b by omega, oneLog_self, full] at fits
    exact absurd fits (by decide)
  · -- the hashes of the two keys differ
    intro misread
    obtain ⟨i, off, p, j, off', t, pLives, tLives, pHash, tHash, different, -⟩ := misread
    have sameKey {i off : Nat} {e : Entry}
        (stored : Lives twoSectors (oneLog b (dead ++ [entryA 254] ++ [entryB])) i off e)
        (hash : keyHash e.key.bytes = keyHash keyA.bytes) : e.key = keyA := by
      have member := (lives_oneLog stored).2
      rw [live, mem_cons, mem_singleton] at member
      rcases member with rfl | rfl
      · rfl
      · exact absurd hash (by decide)
    exact different ⟨sameKey pLives pHash, sameKey tLives tHash⟩
  · refine ⟨b, _, entryA 254, lives, rfl, rfl, by decide, by rw [plan]; simp, 1 - b, other, ?_, ?_⟩
    · rw [nextGc, plan]
      show 1 - b ≠ b
      omega
    rw [collect, plan]
    show logSize (moveBlock _ _ b _) + _ + 4 ≤ 4096
    rw [moveBlock_target (by omega), logSize_append, logSize_map_moved, oneLog_self, live, used,
      oneLog, Function.update_of_ne (by omega)]
    decide

end Phy6212.Kv
