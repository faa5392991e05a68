import Phy6212.Kv.Reboot

/-!
# Relocated nodes

A collection moves nodes, and nobody tells the cache (`lives_collect_moved`).
-/

namespace Phy6212.Kv

open List NorFlash

variable {g : Geometry} {gc : Nat} {i off : Nat} {e : Entry} {logs : Nat → List Entry}

theorem moveBlocks_empty (plan : List Nat) (notTarget : i ≠ gc) :
    ∀ (logs : Nat → List Entry), logs i = [] → plan.foldl (moveBlock gc) logs i = [] := by
  induction plan with
  | nil => exact fun _ empty => empty
  | cons j plan ih =>
    intro logs empty
    apply ih
    rcases eq_or_ne i j with rfl | other
    · exact moveBlock_self logs i
    · rw [moveBlock_ne notTarget other, empty]

theorem lives_moveBlock (gcWithin : gc < g.num) (apart : i ≠ gc) (lives : Lives g logs i off e) :
    ∃ off', Lives g (moveBlock gc logs i) gc off' e.moved := by
  obtain ⟨-, live, before, after, log_eq, -⟩ := lives
  refine ⟨_, gcWithin, e.moved_live, logs gc ++ (liveLog before).map Entry.moved,
    (liveLog after).map Entry.moved, ?_, rfl⟩
  rw [moveBlock_target apart, log_eq, liveLog_split live]
  simp

theorem lives_moveBlocks_moved (plan : List Nat) (gcWithin : gc < g.num) :
    ∀ (logs : Nat → List Entry), gc ∉ plan → i ∈ plan → Lives g logs i off e →
      plan.foldl (moveBlock gc) logs i = [] ∧
        ∃ off', Lives g (plan.foldl (moveBlock gc) logs) gc off' e.moved := by
  induction plan with
  | nil => exact fun _ _ member => absurd member not_mem_nil
  | cons j plan ih =>
    intro logs notTarget member lives
    simp only [mem_cons, not_or] at notTarget
    rcases eq_or_ne i j with rfl | other
    · -- the entry moves now, and its copy stays in the target
      have apart : i ≠ gc := Ne.symm notTarget.1
      obtain ⟨off', moved⟩ := lives_moveBlock gcWithin apart lives
      refine ⟨moveBlocks_empty plan apart _ (moveBlock_self logs i), off', ?_⟩
      exact lives_moveBlocks_keep plan _ notTarget.2 notTarget.2 moved
    · have kept : Lives g _ i off e :=
        lives_moveBlocks_keep [j] logs (by simpa using notTarget.1) (by simpa using other) lives
      exact ih _ notTarget.2 ((mem_cons.mp member).resolve_left other) kept

theorem lives_collect_moved (gcWithin : gc < g.num) (moved : i ∈ planOf g logs gc)
    (lives : Lives g logs i off e) :
    collect g logs gc i = [] ∧ ∃ off', Lives g (collect g logs gc) gc off' e.moved :=
  lives_moveBlocks_moved _ gcWithin logs (gc_notMem_planOf logs) moved lives

theorem keycmpLoop_blank {s d : Nat → UInt8} {a : List UInt8} (str : CStr s a)
    (erased : ∀ k ≤ a.length, d k = blank) :
    ∀ (n i : Nat), i ≤ a.length → a.length < i + n → keycmpLoop s d i n ≠ 0 := by
  intro n
  induction n with
  | zero =>
    intro i inside bound
    exact absurd bound (by omega)
  | succ n ih =>
    intro i inside bound
    rw [keycmpLoop]
    split
    · next same =>
      have less : i < a.length := (str.ne_zero_iff inside).mp same.1
      exact ih _ less (by omega)
    rename_i differ
    intro zero
    have equal := sub_toNat_eq_zero.mp zero
    have nonzero : s i ≠ 0 := by
      rw [equal, erased i inside]
      decide
    exact differ ⟨nonzero, equal⟩

theorem keycmp_first {s d : Nat → UInt8} {n : Int} (bound : n ≠ 0) (differ : s 0 ≠ d 0) :
    keycmp s d n ≠ 0 := by
  have apart : ((s 0).toNat : Int) - (d 0).toNat ≠ 0 := fun zero =>
    differ (sub_toNat_eq_zero.mp zero)
  have notSame : ¬ (s 0 ≠ 0 ∧ s 0 = d 0) := fun both => differ both.2
  cases n with
  | ofNat n =>
    cases n with
    | zero => exact absurd rfl bound
    | succ n =>
      show keycmpLoop s d 0 _ ≠ 0
      rw [keycmpLoop, if_neg notSame]
      exact apart
  | negSucc n =>
    show (if s 0 ≠ 0 ∧ s 0 = d 0 then (-1) else _) ≠ 0
    rw [if_neg notSame]
    exact apart

/-- Two stored keys with the hash of the key, one of them another key, that can make
the lookup behind a collection take an erased place for the node of the key: the
place `off'` of the second is erased, and the comparison there is given what the
search for the first has left in the node. It compares nothing when the value of the
first begins at `off' + 1`, and it needs more than one byte when the key begins like
erased flash. -/
def Misread (g : Geometry) (logs : Nat → List Entry) (gc : Nat) (key : Key) : Prop :=
  ∃ i off p j off' t, Lives g logs i off p ∧ Lives g logs j off' t ∧
    keyHash p.key.bytes = keyHash key.bytes ∧ keyHash t.key.bytes = keyHash key.bytes ∧
    ¬ (p.key = key ∧ t.key = key) ∧ j ∈ planOf g logs gc ∧
    ((p.node i off).valueOffset = off' + 1 ∨ key.bytes.getD 0 0 = blank)

variable {kv kv₁ : Kvset}

/-- The node passed to a search holds the place of the value of a stored key with
the hash. -/
def Left (g : Geometry) (logs : Nat → List Entry) (key : Key) (node : Kvnode) : Prop :=
  ∃ i off p, Lives g logs i off p ∧ keyHash p.key.bytes = keyHash key.bytes ∧
    node.valueOffset = (p.node i off).valueOffset

theorem cmpName_erased (rep : Rep g kv logs) (rep₁ : Rep g kv₁ (collect g logs gc))
    (unique : Unique g logs) (lives : Lives g logs i off e) (clear : ¬ Misread g logs gc e.key)
    {j o : Nat} {t : Entry} (place : Lives g logs j o t)
    (hash : keyHash t.key.bytes = keyHash e.key.bytes) (moved : j ∈ planOf g logs gc)
    (empty : collect g logs gc j = []) {node : Kvnode} (left_ : Left g logs e.key node) :
    kvnodeCmpName kv₁ { node with block := some j, headOffset := u16 o } e.key.bytes ≠ 0 := by
  obtain ⟨i', off', p, pLives, pHash, valueOffset⟩ := left_
  have placed := rep₁.placed_split place.within empty
  have small := rep.place_bounds place
  have offset : u16 o = o := u16_of_lt (by omega)
  have inside := place.inside
  have bounds := t.size_bounds
  have room := (rep.image j place.within).room
  have erased : ∀ k, o + k < g.size →
      kv₁.headOf { node with block := some j, headOffset := u16 o } k = blank := by
    intro k below
    show kv₁.read _ _ = blank
    rw [offset, placed.read]
    exact placed.cell.erased _ (Nat.zero_le _) below
  unfold kvnodeCmpName
  by_cases own : p.key = e.key ∧ t.key = e.key
  · obtain ⟨rfl, rfl, rfl⟩ := unique.same pLives lives own.1
    obtain ⟨rfl, rfl, rfl⟩ := unique.same place pLives own.2
    have bound : Kvnode.keyBound { node with block := some j, headOffset := u16 o } =
        (t.key.bytes.length + 4 : Nat) := by
      rw [← t.keyBound_eq j o]
      rw [valueOffset, offset]
      rfl
    rw [bound]
    refine keycmpLoop_blank t.key.cstr (fun k inside => erased k (by omega)) _ 0 (Nat.zero_le _) ?_
    omega
  have apart := fun same => clear ⟨i', off', p, j, o, t, pLives, place, pHash, hash, own, moved, same⟩
  simp only [imp_false, not_or] at apart
  apply keycmp_first
  · show (node.valueOffset : Int) - (u16 o) - 1 ≠ 0
    omega
  · rw [erased 0 (by omega)]
    exact apart.2

theorem findLoop_collected (rep : Rep g kv logs) (rep₁ : Rep g kv₁ (collect g logs gc))
    (gcWithin : gc < g.num) (unique : Unique g logs) (lives : Lives g logs i off e)
    (clear : ¬ Misread g logs gc e.key) :
    ∀ (cache : List CacheNode) (node : Kvnode),
      (∀ c ∈ cache, Consulted e.key c → Hashed g logs c.blockId c.offset c.hash) →
      Left g logs e.key node →
      (i ∉ planOf g logs gc →
        (∃ c ∈ cache, Consulted e.key c ∧ c.blockId = i ∧ c.offset = off) →
        findLoop kv₁ e.key.bytes cache node = .ok (true, e.node i off)) ∧
      (i ∈ planOf g logs gc →
        ∃ node', findLoop kv₁ e.key.bytes cache node = .ok (false, node')) := by
  intro cache
  induction cache with
  | nil =>
    intro node _ _
    refine ⟨fun _ named => ?_, fun _ => ⟨node, rfl⟩⟩
    obtain ⟨c, member, -⟩ := named
    exact absurd member not_mem_nil
  | cons c cache ih =>
    intro node sound left_
    have soundLater := fun d member => sound d (mem_cons_of_mem _ member)
    -- an entry of the cache that names the place, when it is not the first one
    have later (other : ¬ (Consulted e.key c ∧ c.blockId = i ∧ c.offset = off)) :
        (∃ d ∈ c :: cache, Consulted e.key d ∧ d.blockId = i ∧ d.offset = off) →
          ∃ d ∈ cache, Consulted e.key d ∧ d.blockId = i ∧ d.offset = off := by
      intro named
      obtain ⟨d, member, here⟩ := named
      cases mem_cons.mp member with
      | inl first => exact absurd (first ▸ here) other
      | inr member => exact ⟨d, member, here⟩
    by_cases consulted : Consulted e.key c
    · obtain ⟨t, place, hash⟩ := sound c mem_cons_self consulted
      have same : keyHash t.key.bytes = keyHash e.key.bytes := hash.symm.trans consulted.1
      by_cases moved : c.blockId ∈ planOf g logs gc
      · have empty := (lives_collect_moved gcWithin moved place).1
        have search := (rep₁.placed_split place.within empty).search_end
          (Nat.zero_le c.offset) node
        rw [findLoop_consult consulted search,
          if_neg (cmpName_erased rep rep₁ unique lives clear place same moved empty left_)]
        obtain ⟨found, missed⟩ := ih { node with block := some c.blockId, headOffset := u16 c.offset }
          soundLater left_
        refine ⟨fun stays named => found stays (later ?_ named), missed⟩
        intro here
        exact stays (here.2.1 ▸ moved)
      have stayed := lives_collect_keep moved place
      rw [findLoop_consult consulted (rep₁.search stayed node)]
      by_cases own : t.key = e.key
      · obtain ⟨block, offset, rfl⟩ := unique.same place lives own
        rw [if_pos ((rep₁.cmpName stayed t.key).mpr rfl), block, offset]
        exact ⟨fun _ _ => rfl, fun member => absurd (block ▸ member) moved⟩
      rw [if_neg fun zero => own ((rep₁.cmpName stayed e.key).mp zero)]
      obtain ⟨found, missed⟩ := ih _ soundLater
        ⟨_, _, t, place, same, rfl⟩
      refine ⟨fun stays named => found stays (later ?_ named), missed⟩
      intro here
      rw [here.2.1, here.2.2] at place
      exact own (by rw [place.entry_unique lives])
    · rw [findLoop_skip kv₁ consulted]
      obtain ⟨found, missed⟩ := ih node soundLater left_
      exact ⟨fun stays named => found stays (later (fun here => consulted here.1) named), missed⟩

variable {map : Key → Option (List UInt8)} {j : Nat} {n : Entry}

theorem movedVersion_newer {v : UInt8} (notWrapped : v ≠ 254) :
    olderNode (versionByte (nextVersion v)) (versionByte (nextVersion v + 1)) = some .first := by
  have bound := v.toNat_lt
  have notWrapped' : v.toNat ≠ 254 := fun equal => notWrapped (UInt8.toNat_inj.mp equal)
  by_cases last : v = 255
  · subst last
    rfl
  have notLast : v.toNat ≠ 255 := fun equal => last (UInt8.toNat_inj.mp equal)
  have next : nextVersion v = v.toNat + 1 := by rw [nextVersion, if_neg last]
  have low : (versionByte (nextVersion v)).toNat = v.toNat + 1 := by
    rw [next, versionByte_toNat (by omega)]
  have high : (versionByte (nextVersion v + 1)).toNat = v.toNat + 2 := by
    rw [next, versionByte_toNat (by omega)]
  apply olderNode_of_lt
  · rw [UInt8.lt_iff_toNat_lt]
    omega
  intro one final
  rw [one] at low
  rw [final] at high
  have : (1 : UInt8).toNat = 1 := rfl
  have : (255 : UInt8).toNat = 255 := rfl
  omega

theorem livesBut_append (within : j < g.num) (live : n.live = true) (i off : Nat) (x : Entry) :
    LivesBut g (Function.update logs j (logs j ++ [n])) j (logSize (logs j)) i off x ↔
      Lives g logs i off x := by
  unfold LivesBut
  rw [lives_append within live]
  constructor
  · intro both
    exact both.1.resolve_right fun new => both.2 ⟨new.1, new.2.1⟩
  intro lives
  refine ⟨.inl lives, ?_⟩
  intro here
  obtain ⟨rfl, rfl⟩ := here
  have inside := lives.inside
  have bounds := x.size_bounds
  omega

theorem Recovers.append_older (unique : Unique g logs) (contents : Contents g logs map)
    (within : j < g.num) (live : n.live = true) (lives : Lives g logs i off e)
    (key_eq : e.key = n.key) (older : olderNode n.version e.version = some .first) :
    Recovers g (Function.update logs j (logs j ++ [n])) map := by
  refine .inr ⟨j, logSize (logs j), n, ⟨?_, ⟨i, off, e, ?_, key_eq, older⟩, ?_⟩, ?_⟩
  · exact (lives_append within live).mpr (.inr ⟨rfl, rfl, rfl⟩)
  · exact (livesBut_append within live i off e).mpr lives
  · intro i₁ off₁ x i₂ off₂ y first second same
    exact unique ((livesBut_append within live _ _ _).mp first)
      ((livesBut_append within live _ _ _).mp second) same
  · intro key value
    simp only [livesBut_append within live]
    exact contents key value

end Phy6212.Kv
