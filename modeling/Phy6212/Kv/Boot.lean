import Phy6212.Kv.Verify

/-!
# Starting the store

`kv_init` mounts the blocks, removes superseded entries and fills the cache (`kvInit_spec`,
`Booted`).
-/

namespace Phy6212.Kv

open List NorFlash

variable {g : Geometry} {kv : Kvset} {logs : Nat → List Entry}

def HashedBefore (g : Geometry) (logs : Nat → List Entry) (i low j off : Nat) (hash : UInt32) :
    Prop :=
  Hashed g logs j off hash ∧ After j off i low

theorem Rep.setCache (rep : Rep g kv logs) (cache : List CacheNode) :
    Rep g { kv with cache := cache } logs :=
  { rep with }

theorem CacheFor.congr {places places' : Nat → Nat → UInt32 → Prop} {cache : List CacheNode}
    (cacheFor : CacheFor places cache)
    (same : ∀ i off hash, places i off hash ↔ places' i off hash) : CacheFor places' cache := by
  have : places = places' := by
    funext i off hash
    exact propext (same i off hash)
  exact this ▸ cacheFor

variable {i : Nat}

theorem LaidOut.readKey (laid : LaidOut g kv logs) {off b : Nat} {e : Entry}
    (lives : Lives g logs i off e) (within : b < g.num) :
    readString (kv.headOf (e.node i off)) (kv.num * (kv.blocks b).size) 0 = e.key.bytes := by
  have short := e.key.short
  have bound : 2 * 512 ≤ kv.num * (kv.blocks b).size := by
    rw [laid.num, laid.record b within]
    exact Nat.mul_le_mul g.two g.large
  have str := laid.headOf lives
  refine readString_eq ⟨fun i h => ?_, ?_, str.nonzero⟩ (by omega)
  · rw [Nat.zero_add]
    exact str.bytes i h
  · simp only [Nat.zero_add]
    exact str.nul

theorem Lives.after_next {j off : Nat} {before after : List Entry} {e x : Entry}
    (lives : Lives g logs j off x) (log_eq : logs i = before ++ e :: after) :
    After j off i (logSize (before ++ [e])) ↔
      After j off i (logSize before) ∨ (j = i ∧ off = logSize before) := by
  have bounds := e.size_bounds
  have grows : logSize (before ++ [e]) = logSize before + e.size := by simp
  constructor
  · rintro (less | ⟨rfl, less⟩)
    · exact .inl (.inl less)
    rcases Nat.lt_or_ge off _ with below | above
    · exact .inl (.inr ⟨rfl, below⟩)
    · rcases lives.at_or_behind log_eq above with ⟨here, -⟩ | behind
      · exact .inr ⟨rfl, here⟩
      · omega
  rintro ((less | ⟨rfl, less⟩) | ⟨rfl, rfl⟩)
  · exact .inl less
  · exact .inr ⟨rfl, by omega⟩
  · exact .inr ⟨rfl, by omega⟩

theorem iterCacheNode_loop (env : Env) (rep : Rep g kv logs) (within : i < g.num) :
    ∀ (after before : List Entry) (rounds : Nat) (cache : List CacheNode),
      logs i = before ++ after → after.length < rounds →
      CacheFor (HashedBefore g logs i (logSize before)) cache →
      (∃ cache', iterLoop i false (iterCacheNode env) rounds (logSize before)
          { kv with cache := cache } () = .ok (-1, { kv with cache := cache' }, ()) ∧
          ∃ n, env.cacheHeap n = false) ∨
      (∃ cache', iterLoop i false (iterCacheNode env) rounds (logSize before)
          { kv with cache := cache } () = .ok (0, { kv with cache := cache' }, ()) ∧
          CacheFor (HashedBefore g logs (i + 1) 0) cache')
  | _, _, 0, _, _, enough, _ => by simp at enough
  | [], before, rounds + 1, cache, log_eq, _, cacheFor => by
    rw [append_nil] at log_eq
    refine .inr ⟨cache, iterLoop_end ((rep.setCache cache).placed_split within log_eq)
      (Nat.le_refl _) rounds, cacheFor.congr fun j off hash => ?_⟩
    refine and_congr_right fun ⟨e, lives, _⟩ => ?_
    have inside := lives.inside
    have bounds := e.size_bounds
    constructor
    · rintro (less | ⟨rfl, -⟩)
      · exact .inl (by omega)
      · exact .inl (by omega)
    rintro (less | ⟨-, less⟩)
    · rcases Nat.lt_succ_iff_lt_or_eq.mp less with earlier | rfl
      · exact .inl earlier
      · refine .inr ⟨rfl, ?_⟩
        rw [log_eq] at inside
        omega
    · exact absurd less (Nat.not_lt_zero _)
  | e :: after, before, rounds + 1, cache, log_eq, enough, cacheFor => by
    have placed := (rep.setCache cache).placed_split within log_eq
    have continue_ := iterCacheNode_loop env rep within after (before ++ [e]) rounds
    simp only [length_cons, Nat.add_lt_add_iff_right] at enough
    have next_eq : logs i = before ++ [e] ++ after := by rw [log_eq]; simp
    cases live : e.live with
    | false =>
      rw [iterLoop_skip placed live]
      refine continue_ cache next_eq enough (cacheFor.congr fun j off hash => ?_)
      refine and_congr_right fun ⟨x, lives, _⟩ => ?_
      rw [lives.after_next log_eq]
      refine ⟨.inl, ?_⟩
      rintro (before_ | ⟨rfl, rfl⟩)
      · exact before_
      obtain ⟨_, xLive, first, rest, equal, size_eq⟩ := lives
      rw [log_eq] at equal
      rw [← (split_unique equal size_eq.symm).2.1, live] at xLive
      exact absurd xLive Bool.false_ne_true
    | true =>
      have lives : Lives g logs i _ e := ⟨within, live, before, after, log_eq, rfl⟩
      have called : iterCacheNode env (e.node i (logSize before)) { kv with cache := cache } () =
          .ok ((kvCacheIn env { kv with cache := cache } e.key.bytes i (logSize before)).1,
            (kvCacheIn env { kv with cache := cache } e.key.bytes i (logSize before)).2, ()) := by
        have key_eq := (rep.setCache cache).laid.readKey lives (by omega : 0 < g.num)
        unfold iterCacheNode
        rw [Entry.node_valid, live, if_pos rfl, key_eq]
        rfl
      have fresh : ∀ hash, ¬ HashedBefore g logs i (logSize before) i (logSize before) hash := by
        rintro hash ⟨-, less | ⟨-, less⟩⟩ <;> exact absurd less (Nat.lt_irrefl _)
      rcases @kvCacheIn_spec _ { kv with cache := cache } _ _ cacheFor env e.key.bytes fresh
        (rep.place_bounds lives) with ⟨failed, full⟩ | ⟨cache', added, cacheFor'⟩
      · rw [failed] at called
        refine .inl ⟨cache, iterLoop_stop placed (by simp [live]) (by simp) called rounds,
          cache.length + 1, ?_⟩
        cases heap : env.cacheHeap _ with
        | false => rfl
        | true => exact absurd (.inr heap) full
      rw [added] at called
      rw [iterLoop_next placed (by simp [live]) called]
      refine continue_ cache' next_eq enough (cacheFor'.congr fun j off hash => ?_)
      constructor
      · rintro (⟨⟨x, xLives, hash_eq⟩, before_⟩ | ⟨rfl, rfl, hash_eq⟩)
        · exact ⟨⟨x, xLives, hash_eq⟩, (xLives.after_next log_eq).mpr (.inl before_)⟩
        · exact ⟨⟨e, lives, hash_eq⟩, (lives.after_next log_eq).mpr (.inr ⟨rfl, rfl⟩)⟩
      rintro ⟨⟨x, xLives, hash_eq⟩, before_⟩
      rcases (xLives.after_next log_eq).mp before_ with before_ | ⟨rfl, rfl⟩
      · exact .inl ⟨⟨x, xLives, hash_eq⟩, before_⟩
      · rw [xLives.entry_unique lives] at hash_eq
        exact .inr ⟨rfl, rfl, hash_eq⟩

theorem kvIterFrom_cache (env : Env) (rep : Rep g kv logs) : ∀ (left i : Nat) (ret : Int)
    (cache : List CacheNode), i + left = g.num → (left = 0 → ret = 0) →
      CacheFor (HashedBefore g logs i 0) cache →
      (∃ cache', kvIterFrom (iterCacheNode env) left i ret { kv with cache := cache } () =
          .ok (-1, { kv with cache := cache' }, ()) ∧ ∃ n, env.cacheHeap n = false) ∨
      (∃ cache', kvIterFrom (iterCacheNode env) left i ret { kv with cache := cache } () =
          .ok (0, { kv with cache := cache' }, ()) ∧ CacheOk g logs cache')
  | 0, i, ret, cache, total, done, cacheFor => by
    refine .inr ⟨cache, by rw [kvIterFrom, done rfl], cacheFor.congr fun j off hash => ?_⟩
    refine ⟨And.left, fun hashed => ⟨hashed, ?_⟩⟩
    obtain ⟨e, lives, -⟩ := hashed
    have := lives.within
    exact .inl (by omega)
  | left + 1, i, ret, cache, total, _, cacheFor => by
    have within : i < g.num := by omega
    have loop := iterCacheNode_loop env rep within _ [] _ cache rfl
      ((rep.setCache cache).placed within).rounds cacheFor
    rw [logSize_nil] at loop
    rw [kvIterFrom]
    unfold kvblockIter
    rcases loop with ⟨cache', failed, heap⟩ | ⟨cache', filled, cacheFor'⟩
    · rw [failed]
      exact .inl ⟨cache', rfl, heap⟩
    · rw [filled]
      exact kvIterFrom_cache env rep left _ 0 cache' (by omega) (fun _ => rfl) cacheFor'

theorem cacheFor_unused (n : Nat) : CacheFor (HashedBefore g logs 0 0)
    (replicate n { hash := 0xFFFFFFFF, blockId := 0xFFFF, offset := 0xFFFF }) := by
  have nothing : ∀ i off hash, ¬ HashedBefore g logs 0 0 i off hash := by
    rintro i off hash ⟨-, less | ⟨-, less⟩⟩ <;> exact absurd less (Nat.not_lt_zero _)
  refine ⟨fun i off hash before => absurd before (nothing i off hash), fun c member => ?_,
    fun i off hash before => absurd before (nothing i off hash), ?_⟩
  · rw [eq_of_mem_replicate member]
    exact .inl rfl
  · exact pairwise_replicate.mpr (.inr (.inl rfl))

/-- The store after a start on a flash with the given logs, and the logs left. -/
structure Booted (g : Geometry) (flash : Mem) (logs : Nat → List Entry) (kv : Kvset)
    (logs' : Nat → List Entry) : Prop where
  start : ∃ kv₀ kv₁ gcSize, Mounting g logs flash g.num kv₀ ∧
    Chosen g logs g.num gcSize kv₀.gcBid ∧ Prunes g kv₀ logs kv₁ logs' ∧
    kv = { kv₁ with cache := kv.cache }
  free : ClashFree g logs'
  cacheOk : CacheOk g logs' kv.cache

variable {flash : Mem} {map : Key → Option (List UInt8)} {logs' : Nat → List Entry}

theorem Mounting.rep (mounting : Mounting g logs flash g.num kv) (image : Image g flash logs) :
    Rep g kv logs :=
  ⟨mounting.num, mounting.done, mounting.flash.symm ▸ image⟩

theorem chosen_none : Chosen g logs 0 0 none := ⟨rfl, by simp⟩

theorem kvInit_spec (image : Image g flash logs) (env : Env) (cachedSize : Nat) :
    ∃ ret kv, kvInit env cachedSize flash g.num g.size = .ok (ret, kv) ∧
      (ret = 0 → ∃ logs', Booted g flash logs kv logs') ∧
      (ret ≠ 0 → env.blocksHeap = false ∨ ∃ n, env.cacheHeap n = false) := by
  have two := g.two
  unfold kvInit
  cases blocks : env.blocksHeap with
  | false => exact ⟨-1, _, rfl, fun zero => absurd zero (by decide), fun _ => .inl rfl⟩
  | true =>
    obtain ⟨kv₀, gcSize, mount, mounting, chosen⟩ := initBlocks_spec image g.num 0 0
      { flash := flash, trace := [], num := g.num, blocks := fun _ => zeroBlock, bid := 0,
        gcBid := none, cache := [] } (by omega)
      ⟨rfl, rfl, rfl, rfl, by simp only; omega, by simp, fun _ _ => rfl⟩ chosen_none
    obtain ⟨kv₁, logs', verify, prunes, free⟩ := kvVerify_spec (mounting.rep image)
    rw [if_pos rfl, mount]
    simp only [bind, Except.bind, verify]
    cases heap : env.cacheHeap cachedSize with
    | false => exact ⟨-1, kv₁, rfl, fun zero => absurd zero (by decide), fun _ => .inr ⟨_, heap⟩⟩
    | true =>
      have fill := kvIterFrom_cache env prunes.rep g.num 0 (-1) _ (by omega) (by omega)
        (cacheFor_unused cachedSize)
      have num_eq : g.num = kv₁.num := prunes.rep.num.symm
      rw [num_eq] at fill
      unfold kvIter
      rcases fill with ⟨cache, failed, none_left⟩ | ⟨cache, filled, cacheOk⟩
      · rw [failed]
        exact ⟨-1, _, rfl, fun zero => absurd zero (by decide), fun _ => .inr none_left⟩
      rw [filled]
      refine ⟨0, { kv₁ with cache := cache }, rfl, fun _ => ⟨logs', ?_, free, cacheOk⟩,
        fun nonzero => absurd rfl nonzero⟩
      exact ⟨kv₀, kv₁, gcSize, mounting, chosen, prunes, rfl⟩

structure Ready (g : Geometry) (kv : Kvset) (logs : Nat → List Entry) : Prop where
  rep : Rep g kv logs
  bid : kv.bid < g.num
  gc : ∃ gc < g.num, kv.gcBid = some gc

namespace Booted

section

variable (booted : Booted g flash logs kv logs')

include booted

theorem rep : Rep g kv logs' := by
  obtain ⟨⟨_, kv₁, _, _, _, prunes, equal⟩, -⟩ := booted
  rw [equal]
  exact prunes.rep.setCache _

theorem ready (within : i < g.num) (roomy : 4 < freeSize g logs i) : Ready g kv logs' := by
  refine ⟨booted.rep, ?_, ?_⟩
  · obtain ⟨⟨kv₀, kv₁, _, mounting, _, prunes, equal⟩, -⟩ := booted
    rw [equal, show ({ kv₁ with cache := kv.cache } : Kvset).bid = kv₁.bid from rfl, prunes.bid]
    exact mounting.bid
  obtain ⟨⟨kv₀, kv₁, gcSize, _, chosen, prunes, equal⟩, -⟩ := booted
  rw [equal, show ({ kv₁ with cache := kv.cache } : Kvset).gcBid = kv₁.gcBid from rfl,
    prunes.gcBid]
  cases gc : kv₀.gcBid with
  | none =>
    rw [gc] at chosen
    have := chosen.2 i within
    omega
  | some gc' =>
    rw [gc] at chosen
    exact ⟨gc', chosen.1, rfl⟩

theorem freest {gc : Nat} (gcBid : kv.gcBid = some gc) (within : i < g.num) :
    freeSize g logs i ≤ freeSize g logs gc := by
  obtain ⟨⟨kv₀, kv₁, gcSize, _, chosen, prunes, equal⟩, -⟩ := booted
  rw [equal, show ({ kv₁ with cache := kv.cache } : Kvset).gcBid = kv₁.gcBid from rfl,
    prunes.gcBid] at gcBid
  rw [gcBid] at chosen
  rw [← chosen.2.2.1]
  exact chosen.2.2.2 i within

theorem idle (unique : Unique g logs) : logs' = logs ∧ kv.flash = flash ∧ kv.trace = [] := by
  obtain ⟨⟨kv₀, kv₁, _, mounting, _, prunes, equal⟩, -⟩ := booted
  obtain ⟨rfl, same⟩ := prunes.idle unique.clashFree
  rw [equal]
  exact ⟨same, mounting.flash, mounting.trace⟩

end

end Booted

/-- No entry of an image with one live entry for each key is removed. -/
theorem Image.booted (image : Image g flash logs) (unique : Unique g logs) {env : Env}
    {cachedSize : Nat} (start : kvInit env cachedSize flash g.num g.size = .ok (0, kv)) :
    Booted g flash logs kv logs := by
  obtain ⟨ret, kv', init, booted, -⟩ := kvInit_spec image env cachedSize
  rw [start] at init
  obtain ⟨rfl, rfl⟩ := Prod.mk.inj (Except.ok.inj init)
  obtain ⟨logs', booted⟩ := booted rfl
  obtain ⟨rfl, -⟩ := booted.idle unique
  exact booted

/-- The logs stand for the contents: every key is unique, or one entry is stale
and the others are unique. -/
def Recovers (g : Geometry) (logs : Nat → List Entry) (map : Key → Option (List UInt8)) : Prop :=
  (Unique g logs ∧ Contents g logs map) ∨
    ∃ i off e, Stale g logs i off e ∧ ∀ key value,
      (∃ j off' x, LivesBut g logs i off j off' x ∧ x.key = key ∧ x.value = value) ↔
        map key = some value

theorem Recovers.booted (recovers : Recovers g logs map) (booted : Booted g flash logs kv logs') :
    Unique g logs' ∧ Contents g logs' map := by
  rcases recovers with ⟨unique, contents⟩ | ⟨i, off, e, stale, contents⟩
  · obtain ⟨rfl, -⟩ := booted.idle unique
    exact ⟨unique, contents⟩
  obtain ⟨⟨kv₀, kv₁, _, _, _, prunes, -⟩, free, -⟩ := booted
  refine ⟨fun j off' x j' off'' y lives lives' key_eq => ?_, fun key value => ?_⟩
  · exact stale.others ((prunes.stale free stale).mp lives) ((prunes.stale free stale).mp lives')
      key_eq
  rw [← contents]
  constructor
  · rintro ⟨j, off', x, lives, rest⟩
    exact ⟨j, off', x, (prunes.stale free stale).mp lives, rest⟩
  · rintro ⟨j, off', x, lives, rest⟩
    exact ⟨j, off', x, (prunes.stale free stale).mpr lives, rest⟩

theorem Booted.kvGet_eq (recovers : Recovers g logs map) (booted : Booted g flash logs kv logs')
    (key : Key) (size : Nat) : kvGet kv key.bytes size = .ok (getResult size (map key)) := by
  obtain ⟨unique, contents⟩ := recovers.booted booted
  exact Kv.kvGet_eq booted.rep booted.cacheOk unique contents key size

end Phy6212.Kv
