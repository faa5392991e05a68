import Phy6212.Kv.Boot

/-!
# Replacing and removing an entry

An update goes from logs to logs by flash operations, and a power cut leaves the logs in between
(`Evolves`).
-/

namespace Phy6212.Kv

open Function NorFlash

/-- The second store comes from the first by flash operations, and before and
after each of them the flash holds logs with the property. -/
def Evolves (g : Geometry) (P : (Nat → List Entry) → Prop) (kv kv' : Kvset) : Prop :=
  ∃ ops, kv'.trace = kv.trace ++ ops ∧ kv'.flash = replay kv.flash ops ∧
    Survives (fun flash => ∃ logs, Image g flash logs ∧ P logs) kv.flash ops

variable {g : Geometry} {P Q : (Nat → List Entry) → Prop} {kv kv' kv'' : Kvset}
  {logs logs' : Nat → List Entry}

theorem Evolves.still (rep : Rep g kv logs) (holds : P logs) (trace : kv'.trace = kv.trace)
    (flash : kv'.flash = kv.flash) : Evolves g P kv kv' :=
  ⟨[], by rw [trace, List.append_nil], flash, .nil ⟨logs, rep.image, holds⟩⟩

theorem Evolves.step (rep : Rep g kv logs) (rep' : Rep g kv' logs') (one : OneOp kv kv')
    (before : P logs) (after : P logs') : Evolves g P kv kv' := by
  obtain ⟨op, trace, flash⟩ := one.op
  refine ⟨[op], trace, flash, .single ⟨logs, rep.image, before⟩ ⟨logs', ?_, after⟩⟩
  rw [← flash]
  exact rep'.image

theorem Evolves.trans (first : Evolves g P kv kv') (second : Evolves g P kv' kv'') :
    Evolves g P kv kv'' := by
  obtain ⟨ops, trace, flash, survives⟩ := first
  obtain ⟨ops', trace', flash', survives'⟩ := second
  refine ⟨ops ++ ops', by rw [trace', trace, List.append_assoc], ?_, ?_⟩
  · rw [flash', flash, replay_append]
  · rw [flash] at survives'
    exact survives.append survives'

theorem Evolves.mono (evolves : Evolves g P kv kv') (weaker : ∀ logs, P logs → Q logs) :
    Evolves g Q kv kv' := by
  obtain ⟨ops, trace, flash, survives⟩ := evolves
  exact ⟨ops, trace, flash, survives.mono fun _ ⟨logs, image, holds⟩ =>
    ⟨logs, image, weaker logs holds⟩⟩

theorem and_255 {n : Nat} (small : n < 256) : n &&& 0xFF = n := by
  rw [show 0xFF = 2 ^ 8 - 1 from rfl, Nat.and_two_pow_sub_one_eq_mod]
  omega

def versionByte (version : Nat) : UInt8 := UInt8.ofNat (version &&& 0xFF)

theorem versionByte_toNat {n : Nat} (small : n < 256) : (versionByte n).toNat = n := by
  rw [versionByte, and_255 small, UInt8.toNat_ofNat']
  omega

theorem olderNode_of_lt {v w : UInt8} (less : v < w) (one : v = 1 → w ≠ 255) :
    olderNode v w = some .first := by
  unfold olderNode
  split
  · rfl
  · split
    · next both => exact absurd both.2 (one both.1)
    · rfl

theorem nextVersion_newer (v : UInt8) :
    olderNode v (versionByte (nextVersion v)) = some .first := by
  have bound := v.toNat_lt
  unfold nextVersion
  split
  · next last =>
    subst last
    rfl
  rename_i notLast
  have small : v.toNat + 1 < 256 := by
    have : v.toNat ≠ 255 := fun equal => notLast (UInt8.toNat_inj.mp equal)
    omega
  have value := versionByte_toNat small
  refine olderNode_of_lt (UInt8.lt_iff_toNat_lt.mpr (by omega)) ?_
  rintro rfl equal
  rw [equal] at value
  exact absurd value (by decide)

variable {map : Key → Option (List UInt8)} {i off j : Nat} {e n : Entry}

theorem Contents.of_lives (contents : Contents g logs map) (lives : Lives g logs i off e) :
    map e.key = some e.value :=
  (contents e.key e.value).mp ⟨i, off, e, lives, rfl, rfl⟩

/-- The places are those of the old entries with other keys, and that of the new
entry behind the log of block `j`. -/
def Replaces (g : Geometry) (logs : Nat → List Entry) (j : Nat) (n : Entry)
    (places : Nat → Nat → Entry → Prop) : Prop :=
  ∀ i off x, places i off x ↔
    (Lives g logs i off x ∧ x.key ≠ n.key) ∨ (i = j ∧ off = logSize (logs j) ∧ x = n)

section Replacing

variable {places : Nat → Nat → Entry → Prop} (replaces : Replaces g logs j n places)

include replaces

theorem Replaces.unique (unique : Unique g logs) ⦃i₁ off₁ : Nat⦄ ⦃x : Entry⦄ ⦃i₂ off₂ : Nat⦄
    ⦃y : Entry⦄ (first : places i₁ off₁ x) (second : places i₂ off₂ y) (same : x.key = y.key) :
    i₁ = i₂ ∧ off₁ = off₂ := by
  rcases (replaces _ _ _).mp first with ⟨xLives, xOther⟩ | ⟨rfl, rfl, rfl⟩ <;>
  rcases (replaces _ _ _).mp second with ⟨yLives, yOther⟩ | ⟨rfl, rfl, rfl⟩
  · exact unique xLives yLives same
  · exact absurd same xOther
  · exact absurd same.symm yOther
  · exact ⟨rfl, rfl⟩

theorem Replaces.contents (contents : Contents g logs map) (key : Key) (value : List UInt8) :
    (∃ i off x, places i off x ∧ x.key = key ∧ x.value = value) ↔
      update map n.key (some n.value) key = some value := by
  rcases eq_or_ne key n.key with rfl | other
  · rw [update_self]
    constructor
    · rintro ⟨i, off, x, placed, same, rfl⟩
      rcases (replaces i off x).mp placed with ⟨-, differ⟩ | ⟨-, -, rfl⟩
      · exact absurd same differ
      · rfl
    · intro equal
      exact ⟨j, _, n, (replaces _ _ _).mpr (.inr ⟨rfl, rfl, rfl⟩), rfl, Option.some.inj equal⟩
  rw [update_of_ne other, ← contents]
  constructor
  · rintro ⟨i, off, x, placed, rfl, rfl⟩
    rcases (replaces i off x).mp placed with ⟨lives, -⟩ | ⟨-, -, rfl⟩
    · exact ⟨i, off, x, lives, rfl, rfl⟩
    · exact absurd rfl other
  · rintro ⟨i, off, x, lives, rfl, rfl⟩
    exact ⟨i, off, x, (replaces i off x).mpr (.inl ⟨lives, other⟩), rfl, rfl⟩

end Replacing

theorem replaces_livesBut (unique : Unique g logs) (within : j < g.num) (live : n.live = true)
    (lives : Lives g logs i off e) (key_eq : e.key = n.key) :
    Replaces g logs j n (LivesBut g (update logs j (logs j ++ [n])) i off) := by
  intro j' off' x
  unfold LivesBut
  rw [lives_append within live]
  constructor
  · rintro ⟨old | new, apart⟩
    · exact .inl ⟨old, fun same => apart (unique old lives (same.trans key_eq.symm))⟩
    · exact .inr new
  rintro (⟨old, other⟩ | ⟨rfl, rfl, rfl⟩)
  · refine ⟨.inl old, ?_⟩
    rintro ⟨rfl, rfl⟩
    rw [old.entry_unique lives] at other
    exact other key_eq
  refine ⟨.inr ⟨rfl, rfl, rfl⟩, ?_⟩
  rintro ⟨rfl, rfl⟩
  have inside := lives.inside
  have bounds := e.size_bounds
  omega

theorem replaces_lives (within : j < g.num) (live : n.live = true)
    (absent : ∀ value, ¬ Maps g logs n.key value) :
    Replaces g logs j n (Lives g (update logs j (logs j ++ [n]))) := by
  intro j' off' x
  rw [lives_append within live]
  constructor
  · rintro (old | new)
    · exact .inl ⟨old, fun same => absent x.value ⟨j', off', x, old, same, rfl⟩⟩
    · exact .inr new
  · rintro (⟨old, -⟩ | new)
    · exact .inl old
    · exact .inr new

theorem Recovers.append (unique : Unique g logs) (contents : Contents g logs map)
    (within : j < g.num) (live : n.live = true)
    (newer : ∀ i off e, Lives g logs i off e → e.key = n.key →
      olderNode e.version n.version = some .first) :
    Recovers g (update logs j (logs j ++ [n]))
      (update map n.key (some n.value)) := by
  by_cases stored : ∃ i off e, Lives g logs i off e ∧ e.key = n.key
  · obtain ⟨i, off, e, lives, key_eq⟩ := stored
    have replaces := replaces_livesBut unique within live lives key_eq
    have new := (replaces j _ n).mpr (.inr ⟨rfl, rfl, rfl⟩)
    exact .inr ⟨i, off, e, ⟨(lives_append within live).mpr (.inl lives),
      ⟨j, _, n, new, key_eq.symm, newer i off e lives key_eq⟩, replaces.unique unique⟩,
      replaces.contents contents⟩
  have absent : ∀ value, ¬ Maps g logs n.key value := by
    rintro value ⟨i, off, e, lives, key_eq, -⟩
    exact stored ⟨i, off, e, lives, key_eq⟩
  have replaces := replaces_lives within live absent
  exact .inl ⟨replaces.unique unique, replaces.contents contents⟩

theorem removed_contents (unique : Unique g logs) (contents : Contents g logs map)
    (lives : Lives g logs i off e)
    (removed : ∀ j off' x, Lives g logs' j off' x ↔ LivesBut g logs i off j off' x) :
    Unique g logs' ∧ Contents g logs' (update map e.key none) := by
  refine ⟨fun i₁ off₁ x i₂ off₂ y first second same => ?_, fun key value => ?_⟩
  · exact unique ((removed _ _ _).mp first).1 ((removed _ _ _).mp second).1 same
  rcases eq_or_ne key e.key with rfl | other
  · rw [update_self]
    refine ⟨?_, fun impossible => absurd impossible.symm (Option.some_ne_none _)⟩
    rintro ⟨j, off', x, xLives, same, -⟩
    obtain ⟨old, apart⟩ := (removed _ _ _).mp xLives
    exact absurd (unique old lives same) apart
  rw [update_of_ne other, ← contents]
  constructor
  · rintro ⟨j, off', x, xLives, rest⟩
    exact ⟨j, off', x, ((removed _ _ _).mp xLives).1, rest⟩
  rintro ⟨j, off', x, old, rfl, rfl⟩
  refine ⟨j, off', x, (removed _ _ _).mpr ⟨old, ?_⟩, rfl, rfl⟩
  rintro ⟨rfl, rfl⟩
  rw [old.entry_unique lives] at other
  exact other rfl

/-- Block `j` takes a node of the given size: it is not kept free for garbage
collection, and the node fits behind its log. -/
def Fits (g : Geometry) (logs : Nat → List Entry) (gc size j : Nat) : Prop :=
  j < g.num ∧ j ≠ gc ∧ logSize (logs j) + size + 4 ≤ g.size

theorem mod_wrap {num start k : Nat} (within : start < num) (turn : k ≤ num) :
    (start + k) % num = if start + k < num then start + k else start + k - num := by
  split
  · next below => exact Nat.mod_eq_of_lt below
  · next above =>
    rw [Nat.mod_eq_sub_mod (by omega), Nat.mod_eq_of_lt (by omega)]

variable {gc : Nat}

theorem Rep.setBid (rep : Rep g kv logs) (bid : Nat) : Rep g { kv with bid := bid } logs :=
  { rep with }

theorem placeLoop_spec (rep : Rep g kv logs) (env : Env) {version start : Nat}
    (live : n.live = true) (version_eq : n.version = versionByte version)
    (gcBid : kv.gcBid = some gc) (startWithin : start < g.num) :
    ∀ (rounds k : Nat), rounds + k = g.num → k < g.num →
      (∀ k' < k, ¬ Fits g logs gc n.size ((start + k') % g.num)) →
      (∃ j kv', Fits g logs gc n.size j ∧
        placeLoop env n.key.bytes n.value version start rounds
          { kv with bid := (start + k) % g.num } = .ok (some (logSize (logs j)), kv') ∧
        Rep g kv' (update logs j (logs j ++ [n])) ∧ OneOp { kv with bid := j } kv') ∨
      ((∀ j, ¬ Fits g logs gc n.size j) ∧
        placeLoop env n.key.bytes n.value version start rounds
          { kv with bid := (start + k) % g.num } = .ok (none, { kv with bid := start }))
  | 0, k, total, less, _ => by omega
  | rounds + 1, k, total, less, earlier => by
    have bidWithin : (start + k) % g.num < g.num := Nat.mod_lt _ (by omega)
    have here := rep.setBid ((start + k) % g.num)
    have record := rep.record _ bidWithin
    by_cases fits : Fits g logs gc n.size ((start + k) % g.num)
    · left
      obtain ⟨kv', set, rep', one⟩ := kvblockSet_rep here bidWithin env live version_eq fits.2.2
      refine ⟨_, kv', fits, ?_, rep', one⟩
      unfold placeLoop
      have open_ : (kv.blocks ((start + k) % g.num)).roCount = 0 ∧
          some ((start + k) % g.num) ≠ kv.gcBid := by
        rw [record, gcBid]
        exact ⟨rfl, fun equal => fits.2.1 (Option.some.inj equal)⟩
      simp only [if_pos open_, set]
    -- the block is passed, and the next one is tried
    have passed : (if (kv.blocks ((start + k) % g.num)).roCount = 0 ∧
        some ((start + k) % g.num) ≠ kv.gcBid then
          kvblockSet env { kv with bid := (start + k) % g.num } ((start + k) % g.num)
            n.key.bytes n.value version
        else (none, { kv with bid := (start + k) % g.num })) =
          (none, { kv with bid := (start + k) % g.num }) := by
      split
      · next open_ =>
        refine kvblockSet_full here bidWithin env version (e := n) ?_
        by_contra room
        refine fits ⟨bidWithin, ?_, by omega⟩
        intro equal
        rw [equal, gcBid] at open_
        exact open_.2 rfl
      · rfl
    have next_eq : ((start + k) % g.num + 1) % kv.num = (start + (k + 1)) % g.num := by
      rw [rep.num, Nat.mod_add_mod, Nat.add_assoc]
    have earlier' : ∀ k' < k + 1, ¬ Fits g logs gc n.size ((start + k') % g.num) := by
      intro k' below
      rcases Nat.lt_succ_iff_lt_or_eq.mp below with before | rfl
      · exact earlier k' before
      · exact fits
    have wrapped := mod_wrap startWithin (k := k + 1) (by omega)
    have unfolded : placeLoop env n.key.bytes n.value version start (rounds + 1)
        { kv with bid := (start + k) % g.num } =
        if (start + (k + 1)) % g.num = start then .ok (none, { kv with bid := start })
        else placeLoop env n.key.bytes n.value version start rounds
          { kv with bid := (start + (k + 1)) % g.num } := by
      rw [placeLoop]
      simp only [passed, next_eq]
      split
      · next back => rw [back]
      · rfl
    rw [unfolded]
    by_cases last : k + 1 = g.num
    · right
      rw [last, Nat.add_mod_right, Nat.mod_eq_of_lt startWithin, if_pos rfl]
      refine ⟨fun j fits_ => ?_, rfl⟩
      -- every block was tried
      have jWithin := fits_.1
      obtain ⟨k', turn, block⟩ : ∃ k' < g.num, (start + k') % g.num = j := by
        rcases Nat.lt_or_ge j start with below | above
        · refine ⟨j + g.num - start, by omega, ?_⟩
          rw [mod_wrap startWithin (by omega)]
          split <;> omega
        · refine ⟨j - start, by omega, ?_⟩
          rw [mod_wrap startWithin (by omega)]
          split <;> omega
      rw [← block] at fits_
      exact earlier' k' (by omega) fits_
    · rw [if_neg (by rw [wrapped]; split <;> omega)]
      exact placeLoop_spec rep env live version_eq gcBid startWithin rounds _ (by omega)
        (by omega) earlier'

end Phy6212.Kv
