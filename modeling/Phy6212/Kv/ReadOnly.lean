import Phy6212.Kv.Index

/-!
# What becomes of read-only entries

A read-only entry is a line `key=value`. `kvnode_rm` erases the whole block once its last writable
node goes, with the lines in it (`line_erased_with_node`).
-/

namespace Phy6212.Kv

open List NorFlash Runs

/-! ## Searches of a block whose surroundings change -/

def SameBlock (g : Geometry) (i : Nat) (flash flash' : Mem) : Prop :=
  ∀ o < g.size, blockBytes g flash' i o = blockBytes g flash i o

theorem SameBlock.refl (g : Geometry) (i : Nat) (flash : Mem) : SameBlock g i flash flash :=
  fun _ _ => rfl

variable {flash' : Mem} {n : Kvnode}

theorem SameBlock.trans {g : Geometry} {i : Nat} {flash flash'' : Mem}
    (first : SameBlock g i flash flash') (second : SameBlock g i flash' flash'') :
    SameBlock g i flash flash'' :=
  fun o inside => (second o inside).trans (first o inside)

variable {rd rd' : Nat → UInt8} {size : Nat} {node : Kvnode}

theorem skipZeros_congr : ∀ {bound c : Nat},
    (∀ o, o < c + bound → rd' o = rd o) → skipZeros rd' bound c = skipZeros rd bound c
  | 0, _, _ => rfl
  | bound + 1, c, same => by
    unfold skipZeros
    rw [same c (by omega), skipZeros_congr fun o inside => same o (by omega)]

theorem SameBlock.searchStart {g : Geometry} {i : Nat} {flash : Mem}
    (same : SameBlock g i flash flash') (c : Nat) :
    searchStart (blockBytes g flash' i) g.size c = searchStart (blockBytes g flash i) g.size c := by
  unfold Kv.searchStart
  by_cases inside : c ≤ g.size
  · exact skipZeros_congr fun o below => same o (by omega)
  · rw [show g.size - c = 0 by omega]
    rfl

theorem searchLoop_stays {node' stale : Kvnode} (readOnly : n.rw = false) :
    ∀ {left c : Nat} {delim : Option Nat},
      (∀ o, o < c + left → rd' o = rd o) → searchLoop rd size left c delim node = .ok (true, n) →
      searchLoop rd' size left c delim node' ≠ .ok (false, stale)
  | 0, _, _, _, ok => by cases ok
  | left + 1, c, delim, same, ok => by
    have here : rd' c = rd c := same c (by omega)
    have rest : ∀ {delim}, searchLoop rd size left _ delim node = .ok (true, n) →
        searchLoop rd' size left (c + 1) delim node' ≠ .ok (false, stale) := fun ok =>
      searchLoop_stays readOnly (fun o below => same o (by omega)) ok
    have asserted : ∀ {m}, assertSize size m ≠ .ok (false, stale) := by
      intro m failed
      cases assertSize_ok failed
    unfold searchLoop at ok ⊢
    rw [here]
    split at ok
    · next nul =>
      rw [if_pos nul]
      split at ok
      · split
        · exact rest ok
        · exact asserted
      · cases assertSize_ok ok
        cases readOnly
    · next nul =>
      rw [if_neg nul]
      split at ok
      · next delimiter =>
        rw [if_pos delimiter]
        exact rest ok
      rename_i delimiter
      rw [if_neg delimiter]
      split at ok
      · next line =>
        rw [if_pos line]
        cases delim with
        | none => exact rest ok
        | some d => exact asserted
      · next line =>
        rw [if_neg line]
        split at ok
        · next cr =>
          rw [if_pos cr]
          exact rest ok
        · next cr =>
          rw [if_neg cr]
          exact rest ok

theorem searchLoop_failed {stale : Kvnode} :
    ∀ {left c : Nat} {delim : Option Nat},
      searchLoop rd size left c delim node = .ok (false, stale) → stale = node
  | 0, _, _, ok => by
    cases ok
    rfl
  | left + 1, c, delim, ok => by
    have asserted : ∀ {m}, assertSize size m ≠ .ok (false, stale) := by
      intro m failed
      cases assertSize_ok failed
    unfold searchLoop at ok
    split at ok
    · split at ok
      · exact searchLoop_failed ok
      · exact absurd ok asserted
    split at ok
    · exact searchLoop_failed ok
    split at ok
    · cases delim with
      | none => exact searchLoop_failed ok
      | some d => exact absurd ok asserted
    · split at ok <;> exact searchLoop_failed ok

theorem searchAt_names {id c : Nat} {found : Bool}
    (ok : searchAt rd size id c node = .ok (found, n)) : n.block = some id := by
  cases found with
  | true => exact searchAt_block ok
  | false =>
    rw [searchLoop_failed ok]

/-! ## Blocks of lines -/

variable (g : Geometry) (flash : Mem) (i : Nat)

/-- The offsets from which block `i` is searched by iterations during which the rest of the
flash may change. -/
inductive Visited : Nat → Prop where
  | start : Visited 0
  | next {c : Nat} {flash' : Mem} {n : Kvnode} (visited : Visited c)
      (same : SameBlock g i flash flash')
      (found : searchAt (blockBytes g flash' i) g.size i c {} = .ok (true, n)) :
      Visited n.nextOffset

def imageNodes : Except Halt (List Kvnode) :=
  nodesFrom (blockBytes g flash i) g.size i (g.size + 1) 0

/-- `kv_init` recognises the node as a read-only entry of block `i`. -/
def Recognised (n : Kvnode) : Prop :=
  ∃ nodes, imageNodes g flash i = .ok nodes ∧ n ∈ nodes ∧ n.readOnly = true

/-- Whatever the rest of the flash holds, searches of block `i` come upon read-only entries
and upon no live writable node. -/
structure ReadOnlyBlock : Prop where
  unmixed : ∀ flash', SameBlock g i flash flash' → ∀ c n, Visited g flash i c →
    searchAt (blockBytes g flash' i) g.size i c {} = .ok (true, n) → n.valid = true → n.rw = false
  lines : ∀ flash', SameBlock g i flash flash' → ∀ nodes, imageNodes g flash' i = .ok nodes →
    ∃ n ∈ nodes, n.readOnly = true

/-! ## Operations on other blocks -/

/-- The step leaves block `i`, its record and the bookkeeping of the store alone. -/
structure Elsewhere (g : Geometry) (i : Nat) (kv kv' : Kvset) : Prop where
  shape : SameShape kv kv'
  flash : SameBlock g i kv.flash kv'.flash
  record : kv'.blocks i = kv.blocks i
  bid : kv'.bid = kv.bid
  gcBid : kv'.gcBid = kv.gcBid
  cache : kv'.cache = kv.cache

variable {g : Geometry} {flash : Mem} {i b : Nat} {kv kv' kv'' : Kvset}

theorem Elsewhere.refl (g : Geometry) (i : Nat) (kv : Kvset) : Elsewhere g i kv kv :=
  ⟨.refl kv, .refl g i kv.flash, rfl, rfl, rfl, rfl⟩

theorem Elsewhere.trans (first : Elsewhere g i kv kv') (second : Elsewhere g i kv' kv'') :
    Elsewhere g i kv kv'' where
  shape := first.shape.trans second.shape
  flash := first.flash.trans second.flash
  record := second.record.trans first.record
  bid := second.bid.trans first.bid
  gcBid := second.gcBid.trans first.gcBid
  cache := second.cache.trans first.cache

section

variable (different : b ≠ i)

include different

theorem setBlock_elsewhere {block : Kvblock} (id : block.id = (kv.blocks b).id)
    (mem : block.mem = (kv.blocks b).mem)
    (size : block.size = (kv.blocks b).size) : Elsewhere g i kv (kv.setBlock b block) :=
  ⟨setBlock_shape id mem size, .refl g i kv.flash, setBlock_other kv different.symm block, rfl, rfl,
    rfl⟩

theorem flashWrite_elsewhere {block : Kvblock} (id : block.id = b)
    (size : block.size = g.size) (pos : Nat) (data : List UInt8) :
    Elsewhere g i kv (kv.flashWrite block pos data) := by
  have shape := flashWrite_shape kv block pos data
  unfold Kvset.flashWrite at shape ⊢
  split
  · next fits =>
    refine ⟨by simpa only [if_pos fits] using shape, ?_, rfl, rfl, rfl, rfl⟩
    intro o inside
    have apart := g.apart different
    apply program_outside
    rw [id, size]
    omega
  · exact .refl g i kv

theorem kvblockGc_elsewhere (id : (kv.blocks b).id = b)
    (size : (kv.blocks b).size = g.size) : Elsewhere g i kv (kvblockGc kv b) := by
  refine ⟨kvblockGc_shape kv b, ?_, setBlock_other _ different.symm _, rfl, rfl, rfl⟩
  intro o inside
  have apart := g.apart different
  apply erase_outside
  rw [id, size]
  omega

theorem kvnodeRm_elsewhere (shaped : Shaped g g.num kv) (within : b < g.num)
    (block : node.block = some b) : Elsewhere g i kv (kvnodeRm kv node) := by
  have id := shaped.id b within
  have size := shaped.size b within
  simp only [kvnodeRm, block]
  split
  · split
    · refine (flashWrite_elsewhere different id size _ _).trans
        (setBlock_elsewhere different ?_ ?_ ?_) <;> rw [flashWrite_blocks]
    · exact kvblockGc_elsewhere different id size
  · exact .refl g i kv

end

theorem kvblockSet_elsewhere (env : Env) (different : b ≠ i) (shaped : Shaped g g.num kv)
    (within : b < g.num) (key value : List UInt8) (version : Nat) :
    Elsewhere g i kv (kvblockSet env kv b key value version).2 := by
  have id := shaped.id b within
  have size := shaped.size b within
  unfold kvblockSet
  simp only
  split
  · exact .refl g i kv
  split
  · exact .refl g i kv
  rename_i offset block allocated
  have record : block.id = (kv.blocks b).id ∧ block.mem = (kv.blocks b).mem ∧
      block.size = (kv.blocks b).size := by
    unfold kvblockAllocNode at allocated
    split at allocated
    · cases allocated
      exact ⟨rfl, rfl, rfl⟩
    · cases allocated
  have reserved : Elsewhere g i kv _ :=
    setBlock_elsewhere different record.1 record.2.1 record.2.2
  have written : ∀ pos data, Elsewhere g i kv _ := fun pos data =>
    reserved.trans (flashWrite_elsewhere different (record.1.trans id)
      (record.2.2.trans size) pos data)
  split
  · refine (written _ _).trans (setBlock_elsewhere different ?_ ?_ ?_) <;>
      rw [flashWrite_blocks] <;> simp [Kvset.setBlock]
  · exact (written _ _).trans
      (flashWrite_elsewhere different (record.1.trans id) (record.2.2.trans size) _ _)

/-! ## A block that is left alone -/

/-- An offset from which a search of block `i` once came to the end of a line. -/
def LineAt (g : Geometry) (flash : Mem) (i offset : Nat) : Prop :=
  ∃ c flash' n, Visited g flash i c ∧ SameBlock g i flash flash' ∧
    searchAt (blockBytes g flash' i) g.size i c {} = .ok (true, n) ∧ n.rw = false ∧
    offset = n.headOffset

/-- The store has left block `i` of the image alone, knows it as a block with lines, and
keeps no cache entry that leads to anything but lines in it. -/
structure Locked (g : Geometry) (flash : Mem) (i : Nat) (kv : Kvset) : Prop where
  shaped : Shaped g g.num kv
  same : SameBlock g i flash kv.flash
  lines : 0 < (kv.blocks i).roCount
  bid : kv.bid < g.num
  reserved : ∀ b, kv.gcBid = some b → b < g.num
  cache : ∀ c ∈ kv.cache, c.blockId = 0xFFFF ∨
    (c.blockId < g.num ∧ (c.blockId = i → LineAt g flash i c.offset))

/-- A node that `kvnode_rm` may be given: it is not a live writable node of block `i`. -/
def Removable (g : Geometry) (i : Nat) (node : Kvnode) : Prop :=
  ∃ b < g.num, node.block = some b ∧ (b = i → node.valid = true → node.rw = false)

theorem Locked.elsewhere (locked : Locked g flash i kv) (step : Elsewhere g i kv kv') :
    Locked g flash i kv' where
  shaped := locked.shaped.mono step.shape
  same := locked.same.trans step.flash
  lines := by
    rw [step.record]
    exact locked.lines
  bid := by
    rw [step.bid]
    exact locked.bid
  reserved := by
    rw [step.gcBid]
    exact locked.reserved
  cache := by
    rw [step.cache]
    exact locked.cache

theorem Locked.other (locked : Locked g flash i kv) (none : (kv.blocks b).roCount = 0) : b ≠ i := by
  rintro rfl
  have lines := locked.lines
  omega

variable {j gc : Nat} {old : Option Kvnode}

theorem Removable.elsewhere (removable : Removable g i node) (shaped : Shaped g g.num kv) :
    Elsewhere g i kv (kvnodeRm kv node) := by
  obtain ⟨b, within, block, harmless⟩ := removable
  by_cases here : b = i
  · have ignored : kvnodeRm kv node = kv := by
      simp only [kvnodeRm, block]
      rw [if_neg]
      rintro ⟨valid, writable⟩
      rw [harmless here valid] at writable
      cases writable
    rw [ignored]
    exact .refl g i kv
  · exact kvnodeRm_elsewhere here shaped within block

theorem Locked.remove (locked : Locked g flash i kv) (removable : Removable g i node) :
    Locked g flash i (kvnodeRm kv node) :=
  locked.elsewhere (removable.elsewhere locked.shaped)

theorem Locked.searched (ro : ReadOnlyBlock g flash i) (locked : Locked g flash i kv) {next : Nat}
    (within : j < g.num) (visited : j = i → Visited g flash i next)
    (search : kvblockSearch kv (kv.blocks j) next {} = .ok (true, node)) :
    Removable g i node ∧ (j = i → Visited g flash i node.nextOffset) := by
  rw [locked.shaped.search within] at search
  refine ⟨⟨j, within, searchAt_block search, ?_⟩, ?_⟩
  · rintro rfl valid
    exact ro.unmixed kv.flash locked.same next node (visited rfl) search valid
  · rintro rfl
    exact (visited rfl).next locked.same search

theorem Locked.removing (ro : ReadOnlyBlock g flash i) :
    Removing g.num (Locked g flash i) (fun j c => j = i → Visited g flash i c)
      (Removable g i) where
  num _ locked := locked.shaped.num
  start _ _ := .start
  search _ _ _ _ locked within visited search := locked.searched ro within visited search
  remove _ _ locked removable := locked.remove removable

/-! ## Lookup -/

theorem LineAt.search (ro : ReadOnlyBlock g flash i) {offset : Nat} (line : LineAt g flash i offset)
    (same : SameBlock g i flash flash') {found : Bool}
    (search : searchAt (blockBytes g flash' i) g.size i offset node = .ok (found, n)) :
    n.valid = true → n.rw = false := by
  obtain ⟨c, flash₀, m, visited, same₀, found₀, readOnly, rfl⟩ := line
  have small := g.small
  have back : SameBlock g i flash₀ flash' := fun o inside =>
    (same o inside).trans (same₀ o inside).symm
  obtain ⟨head, fixed, inside⟩ := searchAt_ro_head small found₀ readOnly
  have start : searchStart (blockBytes g flash' i) g.size c = m.headOffset := by
    rw [back.searchStart, head]
  have restart : searchStart (blockBytes g flash' i) g.size m.headOffset = m.headOffset := by
    rw [back.searchStart, fixed]
  cases found with
  | true =>
    have fresh := searchAt_found {} search
    have visit : searchAt (blockBytes g flash' i) g.size i c {} = .ok (true, n) := by
      unfold searchAt at fresh ⊢
      rw [restart] at fresh
      rw [start]
      exact fresh
    exact ro.unmixed flash' same c n visited visit
  | false =>
    exfalso
    unfold searchAt at search found₀
    rw [restart] at search
    rw [← head] at found₀
    -- the line was found before the end of the block, so only bytes of the block matter
    exact searchLoop_stays readOnly (fun o below => back o (by omega)) found₀ search

theorem Locked.findLoop (ro : ReadOnlyBlock g flash i) (locked : Locked g flash i kv)
    (key : List UInt8) : ∀ (cache : List CacheNode) (node : Kvnode), (∀ c ∈ cache, c ∈ kv.cache) →
      Leaves (fun r => r.1 = true → Removable g i r.2) (Kv.findLoop kv key cache node)
  | [], _, _ => by
    intro found
    cases found
  | c :: rest, node, members => by
    have later := fun node => locked.findLoop ro key rest node
      (fun d member => members d (mem_cons_of_mem _ member))
    unfold Kv.findLoop
    split
    · next chosen =>
      obtain ⟨-, used, -⟩ := chosen
      rcases locked.cache c (members c mem_cons_self) with unused | ⟨within, line⟩
      · exact absurd unused used
      refine (leaves_self _).bind ?_
      rintro ⟨found, n⟩ search
      simp only
      split
      · intro _
        rw [locked.shaped.search within] at search
        refine ⟨c.blockId, within, searchAt_names search, ?_⟩
        intro here
        rw [here] at search
        exact (line here).search ro locked.same search
      · exact later n
    · exact later node

theorem Locked.kvFind (ro : ReadOnlyBlock g flash i) (locked : Locked g flash i kv)
    (key : List UInt8) (node : Kvnode) :
    Leaves (fun r => r.1 = true → Removable g i r.2) (Kv.kvFind kv key node) :=
  locked.findLoop ro key kv.cache node fun _ member => member

/-! ## The cache -/

section

variable (locked : Locked g flash i kv)

include locked

theorem Locked.withCache {cache : List CacheNode} (fine : ∀ c ∈ cache, c.blockId = 0xFFFF ∨
      (c.blockId < g.num ∧ (c.blockId = i → LineAt g flash i c.offset))) :
    Locked g flash i { kv with cache := cache } :=
  ⟨⟨locked.shaped.num, locked.shaped.id, locked.shaped.mem, locked.shaped.size⟩, locked.same,
    locked.lines, locked.bid, locked.reserved, fine⟩

theorem Locked.kvCacheIn (env : Env) (key : List UInt8)
    {offset : Nat} (within : b < g.num) (line : b = i → LineAt g flash i (u16 offset)) :
    Locked g flash i (Kv.kvCacheIn env kv key b offset).2 := by
  have few := g.num_le
  have block : u16 b = b := u16_of_lt (by omega)
  unfold Kv.kvCacheIn
  simp only [block]
  split
  · refine locked.withCache ?_
    intro c member
    rcases mem_or_eq_of_mem_set member with old | rfl
    · exact locked.cache c old
    · exact .inr ⟨within, line⟩
  split
  · refine locked.withCache ?_
    intro c member
    rcases mem_append.mp member with old | new
    · exact locked.cache c old
    · rw [mem_singleton.mp new]
      exact .inr ⟨within, line⟩
  · exact locked

theorem Locked.kvCacheOut (b offset : Nat) :
    Leaves (fun kv' => Locked g flash i kv' ∧ kv'.bid = kv.bid) (Kv.kvCacheOut kv b offset) := by
  unfold Kv.kvCacheOut
  split
  · exact ⟨locked, rfl⟩
  split
  · next slot found =>
    refine ⟨locked.withCache ?_, rfl⟩
    obtain ⟨before, c, after, split, rfl, -, -⟩ := findIdx?_split found
    intro d member
    rw [split, modify_split] at member
    rcases mem_append.mp member with early | late
    · exact locked.cache d (by rw [split]; simp [early])
    · rcases mem_cons.mp late with rfl | later
      · exact .inl rfl
      · exact locked.cache d (by rw [split]; simp [later])
  · exact id

end

/-! ## Updates -/

theorem Locked.placeLoop (env : Env) (key value : List UInt8) (version startBid : Nat) :
    ∀ (rounds : Nat) (kv : Kvset), Locked g flash i kv →
      Leaves (fun r => Locked g flash i r.2 ∧ r.2.gcBid = kv.gcBid ∧ (r.1 ≠ none → r.2.bid ≠ i))
        (Kv.placeLoop env key value version startBid rounds kv)
  | 0, _, _ => id
  | rounds + 1, kv, locked => by
    have tried : ∀ pair : Option Nat × Kvset, pair =
        (if (kv.blocks kv.bid).roCount = 0 ∧ some kv.bid ≠ kv.gcBid then
          kvblockSet env kv kv.bid key value version else (none, kv)) →
        Locked g flash i pair.2 ∧ pair.2.gcBid = kv.gcBid ∧ (pair.1 ≠ none → pair.2.bid ≠ i) := by
      intro pair made
      split at made
      · next free =>
        have different := locked.other free.1
        have step := kvblockSet_elsewhere env different locked.shaped locked.bid key value version
        rw [← made] at step
        refine ⟨locked.elsewhere step, step.gcBid, fun _ => ?_⟩
        rw [step.bid]
        exact different
      · subst made
        exact ⟨locked, rfl, fun placed => absurd rfl placed⟩
    unfold Kv.placeLoop
    generalize made : (if (kv.blocks kv.bid).roCount = 0 ∧ some kv.bid ≠ kv.gcBid then
      kvblockSet env kv kv.bid key value version else (none, kv)) = pair
    obtain ⟨placed, kv₁⟩ := pair
    obtain ⟨locked₁, gc₁, away⟩ := tried _ made.symm
    cases placed with
    | some offset => exact ⟨locked₁, gc₁, away⟩
    | none =>
      have num := locked₁.shaped.num
      have two := g.two
      have moved : Locked g flash i { kv₁ with bid := (kv₁.bid + 1) % kv₁.num } :=
        ⟨⟨num, locked₁.shaped.id, locked₁.shaped.mem, locked₁.shaped.size⟩, locked₁.same,
          locked₁.lines, by rw [num]; exact Nat.mod_lt _ (by omega), locked₁.reserved,
          locked₁.cache⟩
      simp only
      split
      · exact ⟨moved, gc₁, fun impossible => absurd rfl impossible⟩
      · refine (Locked.placeLoop env key value version startBid rounds _ moved).mono ?_
        rintro r ⟨locked₂, gc₂, away₂⟩
        exact ⟨locked₂, gc₂.trans gc₁, away₂⟩

theorem Locked.afterPlace (locked : Locked g flash i kv) (env : Env) (key : List UInt8)
    (size offset : Nat) (away : kv.bid ≠ i)
    (removable : ∀ node, old = some node → Removable g i node) :
    Leaves (fun r => Locked g flash i r.2) (Kv.afterPlace env kv key size old offset) := by
  have entered : ∀ kv', Locked g flash i kv' → kv'.bid = kv.bid →
      Locked g flash i (Kv.kvCacheIn env kv' key kv'.bid offset).2 := by
    intro kv' locked' bid
    refine locked'.kvCacheIn env key locked'.bid ?_
    intro here
    exact absurd (bid.symm.trans here) away
  cases old with
  | none => exact entered kv locked rfl
  | some node =>
    have step := (removable node rfl).elsewhere locked.shaped
    refine ((locked.elsewhere step).kvCacheOut _ _).bind ?_
    rintro kv' ⟨locked', bid⟩
    exact entered kv' locked' (bid.trans step.bid)

/-! ## Garbage collection -/

theorem minUsed_some (chosen : minUsed kv gc = some j) :
    j < kv.num ∧ (kv.blocks j).roCount = 0 := by
  have folded : ∀ (l : List Nat) (best : Nat × Option Nat), (l.foldl (fun best i =>
        let block := kv.blocks i
        if block.roCount = 0 ∧ i ≠ gc ∧ 0 < block.kvSize ∧ block.kvSize < best.1 then
          (block.kvSize, some i)
        else best) best).2 = some j →
      best.2 = some j ∨ (j ∈ l ∧ (kv.blocks j).roCount = 0) := by
    intro l
    induction l with
    | nil =>
      intro best last
      exact .inl last
    | cons k l ih =>
      intro best last
      rcases ih _ last with here | ⟨member, none⟩
      · simp only at here
        split at here
        · next taken =>
          cases here
          exact .inr ⟨mem_cons_self, taken.1⟩
        · exact .inl here
      · exact .inr ⟨mem_cons_of_mem _ member, none⟩
  rcases folded _ _ chosen with impossible | ⟨member, none⟩
  · cases impossible
  · exact ⟨mem_range.mp member, none⟩

def Reserving (g : Geometry) (flash : Mem) (i gc : Nat) (kv : Kvset) : Prop :=
  Locked g flash i kv ∧ kv.gcBid = some gc

theorem Reserving.elsewhere (reserving : Reserving g flash i gc kv) (step : Elsewhere g i kv kv') :
    Reserving g flash i gc kv' :=
  ⟨reserving.1.elsewhere step, step.gcBid.trans reserving.2⟩

theorem Reserving.deepGc {env : Env} (reserving : Reserving g flash i gc kv) (away : gc ≠ i)
    (apart : j ≠ i) (within : j < g.num) (block : node.block = some j) (data : Unit) :
    Leaves (fun r => Reserving g flash i gc r.2.1) (kvblockDeepGc env gc node kv data) := by
  unfold kvblockDeepGc
  split
  · simp only
    have moved : ∀ key value version placed kv',
        kvblockSet env kv gc key value version = (placed, kv') → Reserving g flash i gc kv' := by
      intro key value version placed kv' copied
      have step := kvblockSet_elsewhere env away reserving.1.shaped
        (reserving.1.reserved gc reserving.2) key value version
      rw [copied] at step
      exact reserving.elsewhere step
    split
    · next kv' copied =>
      have clear := moved _ _ _ _ _ copied
      exact clear.elsewhere (kvnodeRm_elsewhere apart clear.1.shaped within block)
    · next kv' copied => exact moved _ _ _ _ _ copied
  · exact reserving

theorem Reserving.gcLoop {env : Env} (away : gc ≠ i) :
    ∀ (rounds : Nat) (newGc : Option Nat) (kv : Kvset), Reserving g flash i gc kv →
      (∀ j, newGc = some j → j < g.num ∧ j ≠ i) →
      Leaves (fun r => Locked g flash i r.2 ∧ r.2.gcBid = some gc ∧
        ∀ j, r.1 = some j → j < g.num ∧ j ≠ i) (Kv.gcLoop env gc rounds newGc kv)
  | 0, _, _, _, _ => id
  | rounds + 1, newGc, kv, reserving, fine => by
    unfold Kv.gcLoop
    split
    · exact ⟨reserving.1, reserving.2, fine⟩
    rename_i j chosen
    obtain ⟨low, none⟩ := minUsed_some chosen
    rw [reserving.1.shaped.num] at low
    have apart := reserving.1.other none
    have emptied : Leaves (fun r => Reserving g flash i gc r.2.1)
        (kvblockIter j false (kvblockDeepGc env gc) kv ()) := by
      refine iterLoop_leaves (fun _ => True) ?_ _ 0 kv () reserving trivial
      intro kv next node reserving _ search
      rw [reserving.1.shaped.search low] at search
      exact ⟨trivial, fun _ data => reserving.deepGc away apart low (searchAt_block search) data⟩
    refine emptied.bind ?_
    rintro ⟨ret, kv', data⟩ reserving'
    refine Reserving.gcLoop away rounds _ kv' reserving' ?_
    intro k named
    split at named
    · cases named
      exact ⟨low, apart⟩
    · exact fine k named

theorem Locked.kvGc (locked : Locked g flash i kv) (env : Env) (away : kv.gcBid ≠ some i) :
    Leaves (fun r => Locked g flash i r.2) (Kv.kvGc env kv) := by
  unfold Kv.kvGc
  split
  · exact id
  rename_i gc reserved
  have different : gc ≠ i := by
    rintro rfl
    exact away reserved
  refine (Reserving.gcLoop different _ none kv ⟨locked, reserved⟩ (by simp)).bind ?_
  rintro ⟨newGc, kv'⟩ ⟨locked', kept, fine⟩
  cases newGc with
  | none => exact locked'
  | some j =>
    refine ⟨⟨locked'.shaped.num, locked'.shaped.id, locked'.shaped.mem, locked'.shaped.size⟩,
      locked'.same, locked'.lines, locked'.bid, ?_, locked'.cache⟩
    intro b named
    cases named
    exact (fine j rfl).1

/-! ## The calls -/

theorem Locked.kvSetAgain (locked : Locked g flash i kv) (env : Env) (key value : List UInt8)
    (version : Nat) (removable : ∀ node, old = some node → Removable g i node) :
    Leaves (fun r => Locked g flash i r.2) (Kv.kvSetAgain env kv key value version old) := by
  refine (Locked.placeLoop env key value version kv.bid kv.num kv locked).bind ?_
  rintro ⟨placed, kv'⟩ ⟨locked', -, away⟩
  cases placed with
  | none => exact locked'
  | some offset =>
    exact locked'.afterPlace env key value.length offset (away (by simp)) removable

theorem Locked.kvSet (ro : ReadOnlyBlock g flash i) (locked : Locked g flash i kv) (env : Env)
    (key value : List UInt8) (away : kv.gcBid ≠ some i) :
    Leaves (fun r => Locked g flash i r.2) (Kv.kvSet env kv key value) := by
  unfold Kv.kvSet
  split
  · exact locked
  refine (locked.kvFind ro key {}).bind ?_
  rintro ⟨exists1, node1⟩ removable1
  simp only at removable1 ⊢
  refine (Locked.placeLoop env key value _ kv.bid kv.num kv locked).bind ?_
  rintro ⟨placed, kv₁⟩ ⟨locked₁, gc₁, away₁⟩
  cases placed with
  | some offset =>
    refine locked₁.afterPlace env key value.length offset (away₁ (by simp)) ?_
    intro node named
    split at named
    · next found =>
      cases named
      exact removable1 found
    · cases named
  | none =>
    refine (locked₁.kvGc env (by rw [gc₁]; exact away)).bind ?_
    rintro ⟨collected, kv₂⟩ locked₂
    split
    · split
      · refine (locked₂.kvFind ro key node1).bind ?_
        rintro ⟨exists2, node2⟩ removable2
        split
        · next found =>
          refine locked₂.kvSetAgain env key value _ ?_
          rintro node ⟨⟩
          exact removable2 found
        · exact locked₂.kvSetAgain env key value _ (by simp)
      · exact locked₂.kvSetAgain env key value _ (by simp)
    · exact locked₂

theorem Locked.kvRm (ro : ReadOnlyBlock g flash i) (locked : Locked g flash i kv)
    (key : List UInt8) : Leaves (fun r => Locked g flash i r.2) (Kv.kvRm kv key) := by
  refine (locked.kvFind ro key {}).bind ?_
  rintro ⟨found, node⟩ removable
  cases found with
  | false => exact locked
  | true =>
    refine ((locked.remove (removable rfl)).kvCacheOut _ _).bind ?_
    rintro kv' ⟨locked', -⟩
    exact locked'

/-! ## Mounting -/

structure Booting (g : Geometry) (flash : Mem) (i n : Nat) (kv : Kvset) : Prop where
  shaped : Shaped g n kv
  same : SameBlock g i flash kv.flash
  lines : i < n → 0 < (kv.blocks i).roCount
  bid : kv.bid < g.num
  reserved : ∀ b, kv.gcBid = some b → b < g.num
  cache : kv.cache = []

theorem ReadOnlyBlock.counted (ro : ReadOnlyBlock g flash i) (same : SameBlock g i flash kv.flash)
    (id : (kv.blocks i).id = i) (mem : (kv.blocks i).mem = i * g.size)
    (size : (kv.blocks i).size = g.size) (calculated : kvblockCalc kv i = .ok kv') :
    0 < (kv'.blocks i).count ∧ 0 < (kv'.blocks i).roCount := by
  obtain ⟨-, nodes, listed, count, roCount⟩ := kvblockCalc_counts id calculated
  have bytes : kv.read (kv.blocks i) = blockBytes g kv.flash i := by
    funext o
    simp only [Kvset.read, blockBytes, mem]
  unfold blockNodes at listed
  rw [bytes, size, id] at listed
  obtain ⟨n, member, readOnly⟩ := ro.lines kv.flash same nodes listed
  have positive : 0 < nodes.countP Kvnode.readOnly := countP_pos_iff.mpr ⟨n, member, readOnly⟩
  have fewer : nodes.countP Kvnode.readOnly ≤ nodes.countP Kvnode.valid := by
    apply countP_mono_left
    intro m _ both
    simp only [Kvnode.readOnly, Bool.and_eq_true] at both
    exact both.1
  have short : nodes.countP Kvnode.valid ≤ g.size + 1 :=
    countP_le_length.trans (nodesFrom_length listed)
  have small := g.small
  have words := g.words
  rw [count, roCount, u16_of_lt (by omega), u16_of_lt (by omega)]
  omega

theorem Booting.kvblockInit (ro : ReadOnlyBlock g flash i) (booting : Booting g flash i j kv) :
    Leaves (Booting g flash i (j + 1))
      (Kv.kvblockInit (kv.setBlock j { kv.blocks j with id := j }) j (j * g.size) g.size) := by
  generalize placed : (kv.setBlock j { kv.blocks j with id := j }).setBlock j
    { (kv.setBlock j { kv.blocks j with id := j }).blocks j with
      size := u16 g.size, mem := j * g.size } = kv₀
  have flash₀ : kv₀.flash = kv.flash := by
    rw [← placed]
    rfl
  have record : (kv₀.blocks j).id = j ∧ (kv₀.blocks j).mem = j * g.size ∧
      (kv₀.blocks j).size = g.size := by
    rw [← placed]
    simp [Kvset.setBlock, u16_of_lt g.small]
  have others : ∀ k, k ≠ j → kv₀.blocks k = kv.blocks k := by
    intro k different
    rw [← placed, setBlock_other _ different, setBlock_other _ different]
  have rest : kv₀.num = kv.num ∧ kv₀.bid = kv.bid ∧ kv₀.gcBid = kv.gcBid ∧
      kv₀.cache = kv.cache := by
    rw [← placed]
    exact ⟨rfl, rfl, rfl, rfl⟩
  have arrived : ∀ kv', SameShape kv₀ kv' → SameBlock g i flash kv'.flash →
      (i < j + 1 → 0 < (kv'.blocks i).roCount) → kv'.bid = kv₀.bid → kv'.gcBid = kv₀.gcBid →
      kv'.cache = kv₀.cache → Booting g flash i (j + 1) kv' := by
    intro kv' shape same lines bid gcBid cache
    have shaped : Shaped g _ kv₀ :=
      booting.shaped.succ rest.1 others record.1 record.2.1 record.2.2
    refine ⟨shaped.mono shape, same, lines, ?_, ?_, ?_⟩
    · rw [bid, rest.2.1]
      exact booting.bid
    · rw [gcBid, rest.2.2.1]
      exact booting.reserved
    · rw [cache, rest.2.2.2]
      exact booting.cache
  unfold Kv.kvblockInit
  rw [placed]
  refine (leaves_self _).bind ?_
  intro kv₁ calculated
  have counts := (kvblockCalc_counts record.1 calculated).1
  have same₁ : SameBlock g i flash kv₁.flash := by
    rw [counts.flash, flash₀]
    exact booting.same
  have kept : j ≠ i → Booting g flash i (j + 1) kv₁ := by
    intro different
    refine arrived kv₁ counts.shape same₁ ?_ counts.bid counts.gcBid counts.cache
    intro below
    rw [counts.others i different.symm, others i different.symm]
    exact booting.lines (by omega)
  have erased : j ≠ i → Booting g flash i (j + 1) (kvblockGc kv₁ j) := by
    intro different
    have step : Elsewhere g i kv₁ _ := kvblockGc_elsewhere different
      ((counts.shape.id j).trans record.1) ((counts.shape.size j).trans record.2.2)
    refine arrived _ (counts.shape.trans step.shape) (same₁.trans step.flash) ?_
      (step.bid.trans counts.bid) (step.gcBid.trans counts.gcBid) (step.cache.trans counts.cache)
    intro below
    rw [step.record]
    exact (kept different).lines below
  by_cases here : j = i
  · subst here
    have facts := ro.counted (by rw [flash₀]; exact booting.same) record.1 record.2.1 record.2.2
      calculated
    simp only [if_neg (Nat.ne_of_gt facts.1)]
    exact arrived kv₁ counts.shape same₁ (fun _ => facts.2) counts.bid counts.gcBid counts.cache
  simp only
  split
  · split
    · exact erased here
    · split
      · exact erased here
      · exact kept here
  · exact kept here

theorem Booting.initBlocks (ro : ReadOnlyBlock g flash i) : ∀ (left j gcSize : Nat) (kv : Kvset),
    left + j = g.num → Booting g flash i j kv →
      Leaves (Booting g flash i g.num) (Kv.initBlocks g.size left j gcSize kv)
  | 0, j, _, kv, total, booting => by
    have all : j = g.num := by omega
    rw [← all]
    exact booting
  | left + 1, j, gcSize, kv, total, booting => by
    refine (booting.kvblockInit ro).bind ?_
    intro kv' next
    have shaped := next.shaped
    simp only
    split
    · refine Booting.initBlocks ro left _ _ _ (by omega)
        ⟨{ shaped with }, next.same, next.lines, next.bid, ?_,
          next.cache⟩
      rintro b ⟨⟩
      omega
    split
    · exact Booting.initBlocks ro left _ _ _ (by omega)
        ⟨{ shaped with }, next.same, next.lines,
          by show j < g.num; omega, next.reserved, next.cache⟩
    · exact Booting.initBlocks ro left _ _ kv' (by omega) next

theorem Locked.iterCacheNode (ro : ReadOnlyBlock g flash i) (env : Env) :
    ∀ (left j : Nat) (ret : Int) (kv : Kvset), left + j = g.num → Locked g flash i kv →
      Leaves (fun r => Locked g flash i r.2.1) (kvIterFrom (Kv.iterCacheNode env) left j ret kv ())
  | 0, _, _, _, _, locked => locked
  | left + 1, j, ret, kv, total, locked => by
    have within : j < g.num := by omega
    have block : Leaves (fun r => Locked g flash i r.2.1)
        (kvblockIter j false (Kv.iterCacheNode env) kv ()) := by
      refine iterLoop_leaves (fun c => j = i → Visited g flash i c) ?_ _ 0 kv () locked
        (fun _ => .start)
      intro kv next node locked visited search
      have onward := (locked.searched ro within visited search).2
      refine ⟨onward, fun chosen data => ?_⟩
      have valid : node.valid = true := by simpa using chosen
      rw [locked.shaped.search within] at search
      have named := searchAt_block search
      unfold Kv.iterCacheNode
      rw [if_pos valid, named]
      refine locked.kvCacheIn env _ within ?_
      rintro rfl
      have readOnly := ro.unmixed kv.flash locked.same next node (visited rfl) search valid
      have head := (searchAt_ro_head g.small search readOnly).2.2
      have small := g.small
      exact ⟨next, kv.flash, node, visited rfl, locked.same, search, readOnly,
        u16_of_lt (by omega)⟩
    refine block.bind ?_
    rintro ⟨ret', kv', data⟩ locked'
    simp only
    split
    · exact locked'
    · exact Locked.iterCacheNode ro env left _ ret' kv' (by omega) locked'

theorem kvInit_locked (ro : ReadOnlyBlock g flash i) (within : i < g.num) (env : Env)
    (cachedSize : Nat) (same : SameBlock g i flash flash') :
    Leaves (fun r => SameBlock g i flash r.2.flash ∧
        ((env.blocksHeap && env.cacheHeap cachedSize) = true → Locked g flash i r.2))
      (kvInit env cachedSize flash' g.num g.size) := by
  unfold kvInit
  cases env.blocksHeap with
  | false => exact ⟨same, fun impossible => by cases impossible⟩
  | true =>
    refine (Booting.initBlocks ro g.num 0 0 _ (by omega)
      ⟨⟨rfl, by omega, by omega, by omega⟩, same, by omega, by show 0 < g.num; omega, by simp,
        rfl⟩).bind ?_
    intro kv₁ booted
    have locked₁ : Locked g flash i kv₁ :=
      ⟨booted.shaped, booted.same, booted.lines within, booted.bid, booted.reserved, by
        rw [booted.cache]
        simp⟩
    refine ((Locked.removing ro).verify locked₁).bind ?_
    intro kv₂ locked₂
    cases env.cacheHeap cachedSize with
    | false => exact ⟨locked₂.same, fun impossible => by cases impossible⟩
    | true =>
      have emptied : Locked g flash i
          { kv₂ with cache := replicate cachedSize ⟨0xFFFFFFFF, 0xFFFF, 0xFFFF⟩ } := by
        refine locked₂.withCache ?_
        intro c member
        rw [(mem_replicate.mp member).2]
        exact .inl rfl
      have num := locked₂.shaped.num
      refine (Locked.iterCacheNode ro env _ 0 _ _ (by simpa using num) emptied).bind ?_
      rintro ⟨ret, kv₃, data⟩ locked₃
      exact ⟨locked₃.same, fun _ => locked₃⟩

/-! ## Runs -/

/-- A device with its flash and the store mounted on it. -/
structure Device where
  kv : Kvset
  mounted : Bool

def powerOff (flash : Mem) : Device where
  kv :=
    { flash := flash, trace := [], num := 0, blocks := fun _ => zeroBlock, bid := 0, gcBid := none,
      cache := [] }
  mounted := false

inductive Request where
  | boot (env : Env) (cachedSize : Nat)
  | set (env : Env) (key value : List UInt8)
  | rm (key : List UInt8)
  | reset

def Device.step (g : Geometry) (d : Device) : Request → Except Halt Device
  | .boot env cachedSize => do
      let (_, kv) ← kvInit env cachedSize d.kv.flash g.num g.size
      .ok { kv := kv, mounted := env.blocksHeap && env.cacheHeap cachedSize }
  | .set env key value =>
    if d.mounted then do
      let (_, kv) ← kvSet env d.kv key value
      .ok { d with kv := kv }
    else .error .overrun
  | .rm key =>
    if d.mounted then do
      let (_, kv) ← kvRm d.kv key
      .ok { d with kv := kv }
    else .error .overrun
  | .reset =>
    if d.mounted then do
      let (_, kv) ← kvReset d.kv
      .ok { d with kv := kv }
    else .error .overrun

/-- When `kv_set` is called, the block reserved for garbage collection has no lines. -/
def SpareReserve (d : Device) : Request → Prop
  | .set _ _ _ => ∀ b ∈ d.kv.gcBid, (d.kv.blocks b).roCount = 0
  | _ => True

instance (d : Device) : (r : Request) → Decidable (SpareReserve d r)
  | .set _ _ _ => inferInstanceAs (Decidable (∀ b ∈ d.kv.gcBid, (d.kv.blocks b).roCount = 0))
  | .boot _ _ => .isTrue trivial
  | .rm _ => .isTrue trivial
  | .reset => .isTrue trivial

/-- Block `i` of the image is as it was, and the mounted store leaves it alone. -/
structure KeepsBlock (g : Geometry) (flash : Mem) (i : Nat) (d : Device) : Prop where
  same : SameBlock g i flash d.kv.flash
  locked : d.mounted = true → Locked g flash i d.kv

variable {d : Device}

theorem Locked.keeps (locked : Locked g flash i kv) : KeepsBlock g flash i { d with kv := kv } :=
  ⟨locked.same, fun _ => locked⟩

theorem KeepsBlock.step (ro : ReadOnlyBlock g flash i) (within : i < g.num)
    (keeps : KeepsBlock g flash i d) {r : Request} (spare : SpareReserve d r) :
    Leaves (KeepsBlock g flash i) (d.step g r) := by
  cases r with
  | boot env cachedSize =>
    refine (kvInit_locked ro within env cachedSize keeps.same).bind ?_
    rintro ⟨ret, kv⟩ ⟨same, locked⟩
    exact ⟨same, locked⟩
  | set env key value =>
    simp only [Device.step]
    split
    · next mounted =>
      have locked := keeps.locked mounted
      have away : d.kv.gcBid ≠ some i := by
        intro reserved
        exact locked.other (spare i reserved) rfl
      refine (locked.kvSet ro env key value away).bind ?_
      rintro ⟨ret, kv⟩ locked'
      exact Locked.keeps locked'
    · exact id
  | rm key =>
    simp only [Device.step]
    split
    · next mounted =>
      refine ((keeps.locked mounted).kvRm ro key).bind ?_
      rintro ⟨ret, kv⟩ locked'
      exact Locked.keeps locked'
    · exact id
  | reset =>
    simp only [Device.step]
    split
    · next mounted =>
      refine ((Locked.removing ro).reset (keeps.locked mounted)).bind ?_
      rintro ⟨ret, kv⟩ locked'
      exact Locked.keeps locked'
    · exact id

theorem Recognised.inside (entry : Recognised g flash i n) : n.nextOffset < g.size := by
  obtain ⟨nodes, listed, member, readOnly⟩ := entry
  obtain ⟨c, search⟩ := nodesFrom_found listed n member
  have small := g.small
  cases searchLoop_hit search with
  | rw low high nul accepted => simp [Kvnode.readOnly, rwNode] at readOnly
  | @ro d e low high line =>
    show u16 _ < g.size
    rw [u16_of_lt (by omega)]
    omega

theorem readonly_kept
    (apart : ∀ i < g.num, (∃ n, Recognised g flash i n) → ReadOnlyBlock g flash i)
    (run : Reaches (Device.step g) SpareReserve (powerOff flash) d) {n : Kvnode}
    (within : i < g.num) (entry : Recognised g flash i n) :
    ∀ o, n.headOffset ≤ o → o < n.nextOffset →
      blockBytes g d.kv.flash i o = blockBytes g flash i o := by
  have ro := apart i within ⟨n, entry⟩
  have keeps : KeepsBlock g flash i d := by
    refine run.invariant ⟨.refl g i flash, fun impossible => by cases impossible⟩ ?_
    intro d r d' keeps spare ok
    exact (keeps.step ro within spare).ok ok
  intro o _ high
  have inside := entry.inside
  exact keeps.same o (by omega)

/-! ## Blocks of text -/

theorem searchLoop_text :
    ∀ {left c : Nat} {delim : Option Nat}, (∀ o, o < c + left → rd' o = rd o ∧ rd o ≠ 0) →
      searchLoop rd' size left c delim node = searchLoop rd size left c delim node
  | 0, _, _, _ => rfl
  | left + 1, c, delim, text => by
    obtain ⟨same, nonzero⟩ := text c (by omega)
    have rest : ∀ {delim}, searchLoop rd' size left _ delim node =
        searchLoop rd size left (c + 1) delim node :=
      searchLoop_text fun o below => text o (by omega)
    unfold searchLoop
    rw [same, if_neg nonzero, if_neg nonzero]
    simp only [rest]

theorem readOnlyBlock_of_text (text : ∀ o < g.size, blockBytes g flash i o ≠ 0)
    (entry : ∃ n, Recognised g flash i n) : ReadOnlyBlock g flash i := by
  have start : ∀ {flash'}, SameBlock g i flash flash' → ∀ c,
      searchAt (blockBytes g flash' i) g.size i c {} =
        searchAt (blockBytes g flash i) g.size i c {} := by
    intro flash' same c
    unfold searchAt
    rw [same.searchStart]
    by_cases inside : searchStart (blockBytes g flash i) g.size c < g.size
    · exact searchLoop_text fun o below => ⟨same o (by omega), text o (by omega)⟩
    · rw [show g.size - 1 - searchStart _ g.size c = 0 by omega]
      rfl
  refine ⟨?_, ?_⟩
  · intro flash' same c n _ search _
    rw [start same] at search
    cases searchLoop_hit search with
    | @rw e low high nul accepted => exact absurd nul (text e (by omega))
    | ro low high line => rfl
  intro flash' same nodes listed
  have listing : ∀ rounds next, nodesFrom (blockBytes g flash' i) g.size i rounds next =
      nodesFrom (blockBytes g flash i) g.size i rounds next := by
    intro rounds
    induction rounds with
    | zero =>
      intro next
      rfl
    | succ rounds ih =>
      intro next
      unfold nodesFrom
      simp only [start same, ih]
  obtain ⟨n, nodes', listed', member, readOnly⟩ := entry
  unfold imageNodes at listed listed'
  rw [listing, listed'] at listed
  cases listed
  exact ⟨n, member, readOnly⟩

def lineOnly : Mem := fun a => [0x61, eqByte, 0x31, nlByte].getD a blank

def lineNode : Kvnode where
  valSize := 1
  eraseFlag := 0xFFFF
  valueOffset := 2
  nextOffset := 4
  nodeSize := 4
  block := some 0

theorem readonly_kept_line :
    ∃ d, Reaches (Device.step twoBlocks) SpareReserve (powerOff lineOnly) d ∧
    d.mounted = true ∧ Recognised twoBlocks lineOnly 0 lineNode ∧
    ∀ o < 4, blockBytes twoBlocks d.kv.flash 0 o = blockBytes twoBlocks lineOnly 0 o := by
  have ran : (([.boot plenty 50, .set plenty [0x62] [0x78], .rm [0x62], .reset,
      .boot plenty 50]).foldlM (checked (Device.step twoBlocks) SpareReserve)
        (powerOff lineOnly)).map Device.mounted = some true := by
    decide +kernel
  obtain ⟨d, run, mounted⟩ := Option.map_eq_some_iff.mp ran
  have listed : imageNodes twoBlocks lineOnly 0 = .ok [lineNode] := by decide +kernel
  have entry : Recognised twoBlocks lineOnly 0 lineNode := ⟨_, listed, by simp, rfl⟩
  have text : ∀ i < 2, ∀ o < 512, blockBytes twoBlocks lineOnly i o ≠ 0 := by decide +kernel
  refine ⟨d, reaches_checked run, mounted, entry, fun o small => ?_⟩
  exact readonly_kept (fun i within some => readOnlyBlock_of_text (text i within) some)
    (reaches_checked run) (by decide) entry o (Nat.zero_le _) small

/-- Removing the last writable node of a block erases the line in front of it. -/
theorem line_erased_with_node :
    ∃ d, Reaches (Device.step twoBlocks) SpareReserve (powerOff lineAndNode) d ∧
      Recognised twoBlocks lineAndNode 0 lineNode ∧
      ¬ ∀ o, lineNode.headOffset ≤ o → o < lineNode.nextOffset →
        blockBytes twoBlocks d.kv.flash 0 o = blockBytes twoBlocks lineAndNode 0 o := by
  have ran : (([.boot plenty 50, .rm [0x62]]).foldlM
      (checked (Device.step twoBlocks) SpareReserve) (powerOff lineAndNode)).map
        (fun d => blockBytes twoBlocks d.kv.flash 0 0) = some blank := by
    decide +kernel
  obtain ⟨d, run, erased⟩ := Option.map_eq_some_iff.mp ran
  have listed : (imageNodes twoBlocks lineAndNode 0).toOption.map head? =
      some (some lineNode) := by
    decide +kernel
  obtain ⟨nodes, found, first⟩ := Option.map_eq_some_iff.mp listed
  refine ⟨d, reaches_checked run,
    ⟨nodes, ok_of_toOption found, mem_of_mem_head? first, rfl⟩, fun kept => ?_⟩
  have byte := kept 0 (Nat.zero_le _) (by decide)
  rw [erased] at byte
  exact absurd byte (by decide)

end Phy6212.Kv
