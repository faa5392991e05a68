import Phy6212.Kv.Update

/-!
# Setting and removing a key

What `kv_set` and `kv_rm` do when their lookup is right (`LookedUp`): `kv_set` writes the new node
and removes the old one, and a power cut leaves the old or the new contents (`removeOld_spec`,
`kvnodeRm_spec`).
-/

namespace Phy6212.Kv

open Function NorFlash

def Refused (key : Key) (value : List UInt8) : Prop :=
  value.length = 0 ∨ 498 ≤ key.bytes.length + value.length

instance (key : Key) (value : List UInt8) : Decidable (Refused key value) :=
  inferInstanceAs (Decidable (_ ∨ _))

theorem kvSet_refused {key : Key} {value : List UInt8} (refused : Refused key value) (env : Env)
    (kv : Kvset) : kvSet env kv key.bytes value = .ok (-1, kv) :=
  if_pos refused

def newEntry (key : Key) (value : List UInt8) (version : Nat) (accepted : ¬ Refused key value) :
    Entry :=
  freshEntry key value version (by unfold Refused at accepted; omega)

/-- The result of a lookup is that of the live entries. -/
def LookedUp (g : Geometry) (logs : Nat → List Entry) (key : Key) (result : Bool × Kvnode) : Prop :=
  (∃ i off e, Lives g logs i off e ∧ e.key = key ∧ result = (true, e.node i off)) ∨
    ((∀ value, ¬ Maps g logs key value) ∧ result.1 = false)

theorem maps_or_absent (g : Geometry) (logs : Nat → List Entry) (key : Key) :
    (∃ i off e, Lives g logs i off e ∧ e.key = key) ∨ ∀ value, ¬ Maps g logs key value := by
  by_cases stored : ∃ i off e, Lives g logs i off e ∧ e.key = key
  · exact .inl stored
  · right
    rintro value ⟨i, off, e, lives, key_eq, -⟩
    exact stored ⟨i, off, e, lives, key_eq⟩

theorem kvFind_lookedUp {g : Geometry} {kv : Kvset} {logs : Nat → List Entry} (rep : Rep g kv logs)
    (cacheOk : CacheOk g logs kv.cache) (unique : Unique g logs) (key : Key) :
    ∃ result, kvFind kv key.bytes {} = .ok result ∧ LookedUp g logs key result := by
  rcases maps_or_absent g logs key with ⟨i, off, e, lives, rfl⟩ | absent
  · exact ⟨_, kvFind_found rep cacheOk unique lives {}, .inl ⟨i, off, e, lives, rfl, rfl⟩⟩
  · obtain ⟨node, missing⟩ := kvFind_missing rep cacheOk absent {}
    exact ⟨_, missing, .inr ⟨absent, rfl⟩⟩

def writtenVersion (result : Bool × Kvnode) : Nat :=
  if result.1 then nextVersion result.2.version else 1

def oldNode (result : Bool × Kvnode) : Option Kvnode := if result.1 then some result.2 else none

def removeOld (kv : Kvset) : Option Kvnode → Kvset
  | some node => kvnodeRm kv node
  | none => kv

variable {g : Geometry} {kv : Kvset} {logs : Nat → List Entry} {gc : Nat} {n : Entry}

theorem place_spec (ready : Ready g kv logs) (env : Env) {version : Nat} (live : n.live = true)
    (version_eq : n.version = versionByte version) (gcBid : kv.gcBid = some gc) :
    (∃ j kv', Fits g logs gc n.size j ∧
      placeLoop env n.key.bytes n.value version kv.bid kv.num kv =
        .ok (some (logSize (logs j)), kv') ∧
      Rep g kv' (update logs j (logs j ++ [n])) ∧ OneOp { kv with bid := j } kv') ∨
    ((∀ j, ¬ Fits g logs gc n.size j) ∧
      placeLoop env n.key.bytes n.value version kv.bid kv.num kv = .ok (none, kv)) := by
  have two := g.two
  have loop := placeLoop_spec ready.rep env live version_eq gcBid ready.bid g.num 0 (by omega)
    (by omega) (by simp)
  rw [Nat.add_zero, Nat.mod_eq_of_lt ready.bid, ← ready.rep.num] at loop
  exact loop

variable {j : Nat} {kv₁ : Kvset} {i off : Nat} {e : Entry}

theorem lives_of_append (lives : Lives g logs i off e) (within : j < g.num) (live : n.live = true) :
    Lives g (update logs j (logs j ++ [n])) i off e :=
  (lives_append within live).mpr (.inl lives)

/-- The store once the new entry is written and the old one removed. -/
structure Written (g : Geometry) (kv : Kvset) (logs : Nat → List Entry) (n : Entry) (j : Nat)
    (kv' : Kvset) (logs' : Nat → List Entry) : Prop where
  within : j < g.num
  rep : Rep g kv' logs'
  bid : kv'.bid = j
  gcBid : kv'.gcBid = kv.gcBid
  cache : kv'.cache = kv.cache
  replaces : Replaces g logs j n (Lives g logs')

theorem Written.over {before after : List Entry} (unique : Unique g logs) (live : n.live = true)
    (within : j < g.num) (rep₁ : Rep g kv₁ (update logs j (logs j ++ [n])))
    (one : OneOp { kv with bid := j } kv₁) (lives : Lives g logs i off e) (key_eq : e.key = n.key)
    (log_eq : update logs j (logs j ++ [n]) i = before ++ e :: after)
    (off_eq : logSize before = off) :
    Written g kv logs n j (kvnodeRm kv₁ (e.node i off))
        (update (update logs j (logs j ++ [n])) i (removeEntry before e after)) ∧
      OneOp kv₁ (kvnodeRm kv₁ (e.node i off)) := by
  subst off_eq
  obtain ⟨rep₂, one₂⟩ := kvnodeRm_rep rep₁ lives.within lives.live log_eq
  refine ⟨⟨within, rep₂, one₂.bid.trans one.bid, one₂.gcBid.trans one.gcBid,
    one₂.cache.trans one.cache, ?_⟩, one₂⟩
  intro i' off' x
  rw [lives_remove lives.within lives.live log_eq]
  exact replaces_livesBut unique within live lives key_eq i' off' x

theorem Written.new (live : n.live = true) (within : j < g.num)
    (rep₁ : Rep g kv₁ (update logs j (logs j ++ [n]))) (one : OneOp { kv with bid := j } kv₁)
    (absent : ∀ value, ¬ Maps g logs n.key value) :
    Written g kv logs n j kv₁ (update logs j (logs j ++ [n])) :=
  ⟨within, rep₁, one.bid, one.gcBid, one.cache, replaces_lives within live absent⟩

theorem removeOld_spec {map : Key → Option (List UInt8)} {result : Bool × Kvnode}
    (rep : Rep g kv logs) (unique : Unique g logs) (contents : Contents g logs map)
    (lookedUp : LookedUp g logs n.key result) (live : n.live = true)
    (version_eq : n.version = versionByte (writtenVersion result)) (within : j < g.num)
    (rep₁ : Rep g kv₁ (update logs j (logs j ++ [n]))) (one : OneOp { kv with bid := j } kv₁) :
    ∃ logs', Written g kv logs n j (removeOld kv₁ (oldNode result)) logs' ∧
      Evolves g (fun l => Recovers g l map ∨
        Recovers g l (update map n.key (some n.value))) kv
          (removeOld kv₁ (oldNode result)) := by
  have start : Recovers g logs map := .inl ⟨unique, contents⟩
  have newer : ∀ i off e, Lives g logs i off e → e.key = n.key →
      olderNode e.version n.version = some .first := by
    intro i off e lives key_eq
    rcases lookedUp with ⟨i', off', e', lives', key_eq', rfl⟩ | ⟨absent, -⟩
    · rw [(unique.same lives lives' (key_eq.trans key_eq'.symm)).2.2, version_eq]
      exact nextVersion_newer e'.version
    · exact absurd ⟨i, off, e, lives, key_eq, rfl⟩ (absent e.value)
  have recovers := Recovers.append unique contents within live newer
  have first : Evolves g (fun l => Recovers g l map ∨
      Recovers g l (update map n.key (some n.value))) kv kv₁ := by
    have := Evolves.step (rep.setBid j) rep₁ one (P := fun l => Recovers g l map ∨
      Recovers g l _) (.inl start) (.inr recovers)
    exact this
  rcases lookedUp with ⟨i, off, e, lives, key_eq, rfl⟩ | ⟨absent, missing⟩
  · obtain ⟨-, -, before, after, log_eq, off_eq⟩ := lives_of_append lives within live
    obtain ⟨written, one₂⟩ := Written.over unique live within rep₁ one lives key_eq log_eq off_eq
    refine ⟨_, written, first.trans ?_⟩
    refine Evolves.step rep₁ written.rep one₂ (.inr recovers) (.inr (.inl ⟨?_, ?_⟩))
    · exact written.replaces.unique unique
    · exact written.replaces.contents contents
  · have none_old : oldNode result = none := by simp [oldNode, missing]
    rw [none_old]
    exact ⟨_, .new live within rep₁ one absent, first⟩

variable {env : Env} {key : Key} {value : List UInt8} {result : Bool × Kvnode}

theorem kvSet_placed (accepted : ¬ Refused key value)
    (found : kvFind kv key.bytes {} = .ok result) {offset : Nat}
    (placed : placeLoop env key.bytes value (writtenVersion result) kv.bid kv.num kv =
      .ok (some offset, kv₁)) :
    kvSet env kv key.bytes value =
      afterPlace env kv₁ key.bytes value.length (oldNode result) offset := by
  unfold Refused at accepted
  unfold kvSet
  rw [if_neg accepted, found]
  simp only [bind, Except.bind]
  unfold writtenVersion at placed
  rw [placed]
  rfl

theorem kvSet_full (accepted : ¬ Refused key value) (found : kvFind kv key.bytes {} = .ok result)
    (full : placeLoop env key.bytes value (writtenVersion result) kv.bid kv.num kv =
      .ok (none, kv)) {collected : Bool} (gc : kvGc env kv = .ok (collected, kv₁)) :
    kvSet env kv key.bytes value =
      if collected then
        if result.1 then do
          let (exists2, node2) ← kvFind kv₁ key.bytes result.2
          if exists2 then kvSetAgain env kv₁ key.bytes value (nextVersion node2.version) (some node2)
          else kvSetAgain env kv₁ key.bytes value (writtenVersion result + 1) none
        else kvSetAgain env kv₁ key.bytes value (writtenVersion result) none
      else .ok (-1, kv₁) := by
  unfold Refused at accepted
  unfold kvSet
  rw [if_neg accepted, found]
  simp only [bind, Except.bind]
  unfold writtenVersion at full ⊢
  rw [full]
  simp only [gc]

theorem kvCacheOut_shape {kv' : Kvset} (ok : kvCacheOut kv i off = .ok kv') :
    ∃ cache, kv' = { kv with cache := cache } := by
  unfold kvCacheOut at ok
  split at ok
  · exact ⟨kv.cache, (Except.ok.inj ok).symm⟩
  · split at ok
    · exact ⟨_, (Except.ok.inj ok).symm⟩
    · exact absurd ok (by simp)

theorem kvCacheIn_shape (env : Env) (kv : Kvset) (key : List UInt8) (i off : Nat) :
    (kvCacheIn env kv key i off = (-1, kv)) ∨
      ∃ cache, kvCacheIn env kv key i off = (0, { kv with cache := cache }) := by
  cases slot : cacheSlot kv.cache (keyHash key) i off with
  | some k => exact .inr ⟨_, by simp only [kvCacheIn, slot]; rfl⟩
  | none =>
    cases heap : env.cacheHeap (kv.cache.length + 1) with
    | true => exact .inr ⟨_, by simp only [kvCacheIn, slot, heap, if_true]; rfl⟩
    | false => exact .inl (by simp only [kvCacheIn, slot, heap, if_neg Bool.false_ne_true])

theorem afterPlace_none (env : Env) (kv : Kvset) (key : List UInt8) (size offset : Nat) :
    afterPlace env kv key size none offset =
      .ok (if (kvCacheIn env kv key kv.bid offset).1 ≠ 0 then
          (kvCacheIn env kv key kv.bid offset).1 else size,
        (kvCacheIn env kv key kv.bid offset).2) :=
  rfl

theorem afterPlace_some (env : Env) {kv kv₂ : Kvset} {node : Kvnode}
    (out : kvCacheOut (kvnodeRm kv node) (node.block.getD 0) node.headOffset = .ok kv₂) {j : Nat}
    (bid : kv₂.bid = j) (key : List UInt8) (size offset : Nat) :
    afterPlace env kv key size (some node) offset =
      .ok (if (kvCacheIn env kv₂ key j offset).1 ≠ 0 then
          (kvCacheIn env kv₂ key j offset).1 else size,
        (kvCacheIn env kv₂ key j offset).2) := by
  subst bid
  unfold afterPlace
  simp only [out, bind, Except.bind]

theorem afterPlace_shape {kv' : Kvset} {key : List UInt8} {size : Nat} {old : Option Kvnode}
    {offset : Nat} {ret : Int} (ok : afterPlace env kv key size old offset = .ok (ret, kv')) :
    (ret = -1 ∨ ret = size) ∧ ∃ cache, kv' = { removeOld kv old with cache := cache } := by
  have last (kv₂ : Kvset) (equal : (.ok (if (kvCacheIn env kv₂ key kv₂.bid offset).1 ≠ 0 then
          (kvCacheIn env kv₂ key kv₂.bid offset).1 else size,
        (kvCacheIn env kv₂ key kv₂.bid offset).2) : Except Halt _) = .ok (ret, kv')) :
      (ret = -1 ∨ ret = size) ∧ ∃ cache, kv' = { kv₂ with cache := cache } := by
    rcases kvCacheIn_shape env kv₂ key kv₂.bid offset with failed | ⟨cache, added⟩
    · rw [failed] at equal
      obtain ⟨rfl, rfl⟩ := Prod.mk.inj (Except.ok.inj equal)
      exact ⟨.inl rfl, kv₂.cache, rfl⟩
    · rw [added] at equal
      obtain ⟨rfl, rfl⟩ := Prod.mk.inj (Except.ok.inj equal)
      exact ⟨.inr rfl, cache, rfl⟩
  cases old with
  | none =>
    exact last kv ok
  | some node =>
    cases out : kvCacheOut (kvnodeRm kv node) (node.block.getD 0) node.headOffset with
    | error halt =>
      unfold afterPlace at ok
      simp only [out, bind, Except.bind] at ok
      exact absurd ok (by simp)
    | ok kv₂ =>
      rw [afterPlace_some env out rfl] at ok
      obtain ⟨ret_eq, cache, rfl⟩ := last kv₂ ok
      obtain ⟨cache', rfl⟩ := kvCacheOut_shape out
      exact ⟨ret_eq, cache, rfl⟩

variable {logs' : Nat → List Entry}

theorem hashed_replaces (replaces : Replaces g logs j n (Lives g logs')) (i off : Nat)
    (hash : UInt32) :
    Hashed g logs' i off hash ↔
      (∃ e, Lives g logs i off e ∧ e.key ≠ n.key ∧ hash = keyHash e.key.bytes) ∨
        (i = j ∧ off = logSize (logs j) ∧ hash = keyHash n.key.bytes) := by
  constructor
  · rintro ⟨e, lives, hash_eq⟩
    rcases (replaces i off e).mp lives with ⟨old, other⟩ | ⟨rfl, rfl, rfl⟩
    · exact .inl ⟨e, old, other, hash_eq⟩
    · exact .inr ⟨rfl, rfl, hash_eq⟩
  · rintro (⟨e, old, other, hash_eq⟩ | ⟨rfl, rfl, hash_eq⟩)
    · exact ⟨e, (replaces i off e).mpr (.inl ⟨old, other⟩), hash_eq⟩
    · exact ⟨n, (replaces _ _ n).mpr (.inr ⟨rfl, rfl, rfl⟩), hash_eq⟩

theorem afterPlace_cacheOk (env : Env) (size : Nat) (unique : Unique g logs)
    (cacheOk : CacheOk g logs kv.cache) (lookedUp : LookedUp g logs n.key result)
    (written : Written g kv logs n j (removeOld kv₁ (oldNode result)) logs') :
    ∃ ret kv', afterPlace env kv₁ n.key.bytes size (oldNode result) (logSize (logs j)) =
        .ok (ret, kv') ∧
      (result.1 = true ∨ CacheRoom env kv.cache → ret = size ∧ CacheOk g logs' kv'.cache) := by
  have new : Lives g logs' j _ n :=
    (written.replaces _ _ n).mpr (.inr ⟨rfl, rfl, rfl⟩)
  have bounds := written.rep.place_bounds new
  have fresh : ∀ hash, ¬ Hashed g logs j (logSize (logs j)) hash := by
    rintro hash ⟨e, lives, -⟩
    have inside := lives.inside
    have positive := e.size_bounds
    omega
  rcases lookedUp with ⟨i, off, e, lives, key_eq, rfl⟩ | ⟨absent, missing⟩
  · -- the entry of the old place is released and one is taken for the new place
    have cacheFor : CacheFor (Hashed g logs) (kvnodeRm kv₁ (e.node i off)).cache := by
      have same : (kvnodeRm kv₁ _).cache = kv.cache := written.cache
      rw [same]
      exact cacheOk
    obtain ⟨cache, out, unused, released⟩ := kvCacheOut_spec cacheFor ⟨e, lives, rfl⟩
    have call := @afterPlace_some env kv₁ _ _ out j written.bid n.key.bytes size
      (logSize (logs j))
    rcases @kvCacheIn_spec _ { kvnodeRm kv₁ _ with cache := cache } j
      _ released env n.key.bytes (fun hash hashed => fresh hash hashed.1) bounds with
      ⟨-, noRoom⟩ | ⟨cache', added, cacheFor'⟩
    · exact absurd (.inl unused) noRoom
    rw [added] at call
    refine ⟨size, _, call, fun _ => ⟨rfl, cacheFor'.congr fun i' off' hash => ?_⟩⟩
    rw [hashed_replaces written.replaces]
    refine or_congr_left ⟨?_, ?_⟩
    · rintro ⟨⟨x, xLives, hash_eq⟩, apart⟩
      exact ⟨x, xLives, fun same => apart (unique xLives lives (same.trans key_eq.symm)), hash_eq⟩
    rintro ⟨x, xLives, other, hash_eq⟩
    refine ⟨⟨x, xLives, hash_eq⟩, ?_⟩
    rintro ⟨rfl, rfl⟩
    rw [xLives.entry_unique lives] at other
    exact other key_eq
  · have none_old : oldNode result = none := by simp [oldNode, missing]
    rw [none_old] at written ⊢
    have cacheFor : CacheFor (Hashed g logs) kv₁.cache := by
      have same : kv₁.cache = kv.cache := written.cache
      rw [same]
      exact cacheOk
    have bid_eq : kv₁.bid = j := written.bid
    rw [afterPlace_none, bid_eq]
    rcases kvCacheIn_spec cacheFor env n.key.bytes fresh bounds with
      ⟨failed, noRoom⟩ | ⟨cache', added, cacheFor'⟩
    · refine ⟨_, _, rfl, ?_⟩
      rintro (stored | room)
      · rw [missing] at stored
        exact absurd stored Bool.false_ne_true
      · have same : kv₁.cache = kv.cache := written.cache
        rw [← same] at room
        exact absurd room noRoom
    rw [added]
    refine ⟨_, _, rfl, fun _ => ⟨rfl, cacheFor'.congr fun i' off' hash => ?_⟩⟩
    rw [hashed_replaces written.replaces]
    refine or_congr_left ⟨?_, ?_⟩
    · rintro ⟨x, xLives, hash_eq⟩
      exact ⟨x, xLives, fun same => absent x.value ⟨i', off', x, xLives, same, rfl⟩, hash_eq⟩
    · rintro ⟨x, xLives, -, hash_eq⟩
      exact ⟨x, xLives, hash_eq⟩

variable {map : Key → Option (List UInt8)}

theorem kvnodeRm_spec (ready : Ready g kv logs) (unique : Unique g logs)
    (contents : Contents g logs map) (lives : Lives g logs i off e) :
    ∃ logs', Ready g (kvnodeRm kv (e.node i off)) logs' ∧
      (kvnodeRm kv (e.node i off)).cache = kv.cache ∧
      (∀ j off' x, Lives g logs' j off' x ↔ LivesBut g logs i off j off' x) ∧
      Unique g logs' ∧ Contents g logs' (update map e.key none) := by
  obtain ⟨within, live, before, after, log_eq, rfl⟩ := id lives
  obtain ⟨rep', one⟩ := kvnodeRm_rep ready.rep within live log_eq
  have removed : ∀ j off' x, Lives g _ j off' x ↔ LivesBut g logs i _ j off' x :=
    fun j off' x => lives_remove within live log_eq
  refine ⟨_, ⟨rep', ?_, ?_⟩, one.cache, removed, removed_contents unique contents lives removed⟩
  · rw [one.bid]
    exact ready.bid
  · rw [one.gcBid]
    exact ready.gc

end Phy6212.Kv
