import Phy6212.Kv.Lookup

/-!
# The cache

The used entries of the cache name places, each once and with its hash (`CacheFor`;
`kvCacheIn_spec`, `kvCacheOut_spec`).
-/

namespace Phy6212.Kv

open List NorFlash

/-- The used entries of the cache name exactly the given places, each once. -/
structure CacheFor (places : Nat → Nat → UInt32 → Prop) (cache : List CacheNode) : Prop where
  inside : ∀ ⦃i off hash⦄, places i off hash → i < 0xFFFF ∧ off < 0xFFFF
  sound : ∀ c ∈ cache, c.unused = true ∨ places c.blockId c.offset c.hash
  complete : ∀ ⦃i off hash⦄, places i off hash → ∃ c ∈ cache, c.blockId = i ∧ c.offset = off
  distinct : cache.Pairwise fun c d =>
    c.unused = true ∨ ¬ (c.blockId = d.blockId ∧ c.offset = d.offset)

theorem findIdx?_split {α : Type} {p : α → Bool} {l : List α} {k : Nat}
    (found : l.findIdx? p = some k) :
    ∃ before a after, l = before ++ a :: after ∧ before.length = k ∧ p a = true ∧
      ∀ b ∈ before, p b = false := by
  obtain ⟨within, here, earlier⟩ := findIdx?_eq_some_iff_getElem.mp found
  refine ⟨l.take k, l[k], l.drop (k + 1), ?_, ?_, here, ?_⟩
  · rw [getElem_cons_drop, take_append_drop]
  · rw [length_take]
    omega
  intro b member
  obtain ⟨j, small, rfl⟩ := getElem_of_mem member
  rw [length_take] at small
  simpa using earlier j (by omega)

theorem modify_split {α : Type} (f : α → α) (before : List α) (a : α) (after : List α) :
    (before ++ a :: after).modify before.length f = before ++ f a :: after := by
  induction before with
  | nil => rfl
  | cons b before ih => simp [ih]

theorem unused_iff {c : CacheNode} : c.unused = true ↔ c.offset = 0xFFFF ∧ c.blockId = 0xFFFF := by
  simp [CacheNode.unused]

variable {places : Nat → Nat → UInt32 → Prop} {before after : List CacheNode} {c : CacheNode}
  {cache : List CacheNode}

theorem CacheFor.named (cacheFor : CacheFor places cache) (member : c ∈ cache)
    (used : c.blockId < 0xFFFF) : places c.blockId c.offset c.hash := by
  rcases cacheFor.sound c member with unused | named
  · have := (unused_iff.mp unused).2
    omega
  · exact named

theorem CacheFor.insert (cacheFor : CacheFor places (before ++ after)) (new : CacheNode)
    (fresh : ∀ hash, ¬ places new.blockId new.offset hash)
    (used : new.blockId < 0xFFFF ∧ new.offset < 0xFFFF) :
    CacheFor (fun i off hash => places i off hash ∨
        (i = new.blockId ∧ off = new.offset ∧ hash = new.hash)) (before ++ new :: after) := by
  -- no entry of the cache already names the new place
  have apart {d : CacheNode} (member : d ∈ before ++ after) :
      ¬ (d.blockId = new.blockId ∧ d.offset = new.offset) := by
    rintro ⟨block, offset⟩
    have named := cacheFor.named member (by omega)
    rw [block, offset] at named
    exact fresh _ named
  obtain ⟨first, rest, cross⟩ := pairwise_append.mp cacheFor.distinct
  refine ⟨?_, fun d member => ?_, ?_, ?_⟩
  · rintro i off hash (named | ⟨rfl, rfl, -⟩)
    · exact cacheFor.inside named
    · exact used
  · rcases mem_append.mp member with left | member
    · exact (cacheFor.sound d (by simp [left])).imp_right .inl
    · rcases mem_cons.mp member with rfl | right
      · exact .inr (.inr ⟨rfl, rfl, rfl⟩)
      · exact (cacheFor.sound d (by simp [right])).imp_right .inl
  · rintro i off hash (named | ⟨rfl, rfl, -⟩)
    · obtain ⟨d, member, place⟩ := cacheFor.complete named
      rcases mem_append.mp member with left | right
      · exact ⟨d, by simp [left], place⟩
      · exact ⟨d, by simp [right], place⟩
    · exact ⟨new, by simp, rfl, rfl⟩
  · rw [pairwise_append, pairwise_cons]
    refine ⟨first, ⟨fun d right => .inr fun same => ?_, rest⟩, fun d left d' right => ?_⟩
    · exact apart (mem_append_right _ right) ⟨same.1.symm, same.2.symm⟩
    · rcases mem_cons.mp right with rfl | right
      · exact .inr (apart (mem_append_left _ left))
      · exact cross d left d' right

theorem CacheFor.drop_unused (cacheFor : CacheFor places (before ++ c :: after))
    (unused : c.unused = true) : CacheFor places (before ++ after) := by
  have sublist : (before ++ after).Sublist _ :=
    List.Sublist.append_left (sublist_cons_self c after) before
  refine ⟨cacheFor.inside, fun d member => cacheFor.sound d (sublist.subset member),
    fun i off hash named => ?_, cacheFor.distinct.sublist sublist⟩
  obtain ⟨d, member, block, offset⟩ := cacheFor.complete named
  rcases mem_append.mp member with left | member
  · exact ⟨d, by simp [left], block, offset⟩
  rcases mem_cons.mp member with rfl | right
  · have := cacheFor.inside named
    have := (unused_iff.mp unused).2
    omega
  · exact ⟨d, by simp [right], block, offset⟩

theorem CacheFor.release (cacheFor : CacheFor places (before ++ c :: after))
    (used : c.blockId < 0xFFFF) :
    CacheFor (fun i off hash => places i off hash ∧ ¬ (i = c.blockId ∧ off = c.offset))
      (before ++ { c with blockId := 0xFFFF, offset := 0xFFFF } :: after) := by
  obtain ⟨first, rest, cross⟩ := pairwise_append.mp cacheFor.distinct
  obtain ⟨behind, rest⟩ := pairwise_cons.mp rest
  have used' : ¬ c.unused = true := by
    intro unused
    have := (unused_iff.mp unused).2
    omega
  have sound {d : CacheNode} (member : d ∈ before ++ c :: after)
      (apart : d.unused = true ∨ ¬ (d.blockId = c.blockId ∧ d.offset = c.offset)) :
      d.unused = true ∨ (places d.blockId d.offset d.hash ∧
        ¬ (d.blockId = c.blockId ∧ d.offset = c.offset)) := by
    rcases apart with unused | apart
    · exact .inl unused
    · exact (cacheFor.sound d member).imp_right fun named => ⟨named, apart⟩
  refine ⟨fun i off hash named => cacheFor.inside named.1, fun d member => ?_, ?_, ?_⟩
  · rcases mem_append.mp member with left | member
    · exact sound (by simp [left]) (cross d left c mem_cons_self)
    rcases mem_cons.mp member with rfl | right
    · exact .inl rfl
    refine sound (by simp [right]) ?_
    rcases behind d right with unused | apart
    · exact absurd unused used'
    · exact .inr fun same => apart ⟨same.1.symm, same.2.symm⟩
  · rintro i off hash ⟨named, apart⟩
    obtain ⟨d, member, rfl, rfl⟩ := cacheFor.complete named
    rcases mem_append.mp member with left | member
    · exact ⟨d, by simp [left], rfl, rfl⟩
    · rcases mem_cons.mp member with rfl | right
      · exact absurd ⟨rfl, rfl⟩ apart
      · exact ⟨d, by simp [right], rfl, rfl⟩
  · rw [pairwise_append, pairwise_cons]
    refine ⟨first, ⟨fun d _ => .inl rfl, rest⟩, fun d left d' right => ?_⟩
    rcases mem_cons.mp right with rfl | right
    · rcases cacheFor.sound d (by simp [left]) with unused | named
      · exact .inl unused
      refine .inr fun same => ?_
      have small := (cacheFor.inside named).1
      rw [same.1] at small
      exact absurd small (Nat.lt_irrefl _)
    · exact cross d left d' (mem_cons_of_mem _ right)

variable {kv : Kvset} {i off : Nat}

def CacheRoom (env : Env) (cache : List CacheNode) : Prop :=
  (∃ c ∈ cache, c.unused = true) ∨ env.cacheHeap (cache.length + 1) = true

theorem kvCacheIn_spec (cacheFor : CacheFor places kv.cache) (env : Env) (key : List UInt8)
    (fresh : ∀ hash, ¬ places i off hash) (inside : i < 0xFFFF ∧ off < 0xFFFF) :
    (kvCacheIn env kv key i off = (-1, kv) ∧ ¬ CacheRoom env kv.cache) ∨
      ∃ cache, kvCacheIn env kv key i off = (0, { kv with cache := cache }) ∧
        CacheFor (fun i' off' hash => places i' off' hash ∨
          (i' = i ∧ off' = off ∧ hash = keyHash key)) cache := by
  have block_eq : u16 i = i := u16_of_lt (by omega)
  have offset_eq : u16 off = off := u16_of_lt (by omega)
  cases slot : cacheSlot kv.cache (keyHash key) i off with
  | some k =>
    right
    obtain ⟨before, c, after, cache_eq, rfl, here, -⟩ := findIdx?_split slot
    -- no entry names the place yet, so the entry found is an unused one
    have unused : c.unused = true := by
      rcases Bool.or_eq_true_iff.mp here with unused | same
      · exact unused
      simp only [Bool.and_eq_true, decide_eq_true_eq] at same
      have named := cacheFor.named (c := c) (by rw [cache_eq]; simp) (by omega)
      rw [same.1.2, same.2] at named
      exact absurd named (fresh _)
    refine ⟨before ++ { hash := keyHash key, blockId := i, offset := off } :: after, ?_, ?_⟩
    · simp only [kvCacheIn, slot, block_eq, offset_eq]
      rw [cache_eq, set_append_right _ _ (Nat.le_refl _), Nat.sub_self, set_cons_zero]
    · rw [cache_eq] at cacheFor
      exact (cacheFor.drop_unused unused).insert ⟨keyHash key, i, off⟩ fresh inside
  | none =>
    have full : ¬ ∃ c ∈ kv.cache, c.unused = true := by
      rintro ⟨c, member, unused⟩
      have := findIdx?_eq_none_iff.mp slot c member
      simp [unused] at this
    cases heap : env.cacheHeap (kv.cache.length + 1) with
    | true =>
      right
      refine ⟨kv.cache ++ [{ hash := keyHash key, blockId := i, offset := off }], ?_, ?_⟩
      · simp only [kvCacheIn, slot, heap, if_true, block_eq, offset_eq]
      · rw [← append_nil kv.cache] at cacheFor
        exact cacheFor.insert ⟨keyHash key, i, off⟩ fresh inside
    | false =>
      left
      refine ⟨by simp only [kvCacheIn, slot, heap, if_neg Bool.false_ne_true], ?_⟩
      rintro (unused | enough)
      · exact full unused
      · rw [heap] at enough
        exact Bool.false_ne_true enough

theorem kvCacheOut_spec (cacheFor : CacheFor places kv.cache) {hash : UInt32}
    (named : places i off hash) :
    ∃ cache, kvCacheOut kv i off = .ok { kv with cache := cache } ∧
      (∃ c ∈ cache, c.unused = true) ∧
      CacheFor (fun i' off' hash => places i' off' hash ∧ ¬ (i' = i ∧ off' = off)) cache := by
  obtain ⟨d, member, rfl, rfl⟩ := cacheFor.complete named
  have inside := cacheFor.inside named
  have nonempty : kv.cache ≠ [] := ne_nil_of_mem member
  unfold kvCacheOut
  rw [if_neg nonempty]
  cases slot : kv.cache.findIdx? fun c => c.offset = d.offset && c.blockId = d.blockId with
  | none =>
    have := findIdx?_eq_none_iff.mp slot d member
    simp at this
  | some k =>
    obtain ⟨before, c, after, cache_eq, rfl, here, -⟩ := findIdx?_split slot
    simp only [Bool.and_eq_true, decide_eq_true_eq] at here
    refine ⟨_, rfl, ?_⟩
    rw [cache_eq] at cacheFor ⊢
    rw [modify_split]
    refine ⟨⟨_, mem_append_right _ mem_cons_self, rfl⟩, ?_⟩
    rw [← here.1, ← here.2]
    exact cacheFor.release (by omega)

/-- A live entry of the store at a place, with the hash of its key. -/
def Hashed (g : Geometry) (logs : Nat → List Entry) (i off : Nat) (hash : UInt32) : Prop :=
  ∃ e, Lives g logs i off e ∧ hash = keyHash e.key.bytes

abbrev CacheOk (g : Geometry) (logs : Nat → List Entry) (cache : List CacheNode) : Prop :=
  CacheFor (Hashed g logs) cache

variable {g : Geometry} {logs : Nat → List Entry}

theorem Rep.place_bounds (rep : Rep g kv logs) {e : Entry} (lives : Lives g logs i off e) :
    i < 0xFFFF ∧ off < 0xFFFF := by
  have inside := lives.inside
  have room := (rep.image i lives.within).room
  have small := g.small
  have few := g.num_le
  have within := lives.within
  omega

/-- What a lookup through the entries of a cache may return: the node of the key,
or nothing when none of the entries names it. -/
def FindOutcome (g : Geometry) (logs : Nat → List Entry) (key : Key) (cache : List CacheNode)
    (result : Except Halt (Bool × Kvnode)) : Prop :=
  (∃ i off e, Lives g logs i off e ∧ e.key = key ∧ result = .ok (true, e.node i off)) ∨
    ((∀ c ∈ cache, ∀ e, Lives g logs c.blockId c.offset e → e.key ≠ key) ∧
      ∃ node, result = .ok (false, node))

theorem FindOutcome.cons {key : Key} {result : Except Halt (Bool × Kvnode)}
    (outcome : FindOutcome g logs key cache result)
    (other : ∀ e, Lives g logs c.blockId c.offset e → e.key ≠ key) :
    FindOutcome g logs key (c :: cache) result := by
  rcases outcome with found | ⟨absent, missing⟩
  · exact .inl found
  refine .inr ⟨fun d member => ?_, missing⟩
  rcases mem_cons.mp member with rfl | later
  · exact other
  · exact absent d later

theorem findLoop_spec (rep : Rep g kv logs) (key : Key) :
    ∀ (cache : List CacheNode) (node : Kvnode),
      (∀ c ∈ cache, c.unused = true ∨ Hashed g logs c.blockId c.offset c.hash) →
        FindOutcome g logs key cache (findLoop kv key.bytes cache node)
  | [], node, _ => .inr ⟨by simp, node, rfl⟩
  | c :: cache, node, sound => by
    have rest := fun node => findLoop_spec rep key cache node fun d member =>
      sound d (mem_cons_of_mem _ member)
    rw [findLoop]
    split
    · next consulted =>
      rcases sound c mem_cons_self with unused | ⟨e, lives, -⟩
      · exact absurd (unused_iff.mp unused).2 consulted.2.1
      rw [rep.search lives]
      show FindOutcome g logs key _
        (if kvnodeCmpName kv _ key.bytes = 0 then _ else _)
      split
      · next same => exact .inl ⟨_, _, e, lives, (rep.cmpName lives key).mp same, rfl⟩
      · next differ =>
        refine (rest _).cons fun e' lives' key_eq => differ ?_
        rw [← lives.entry_unique lives'] at key_eq
        exact (rep.cmpName lives key).mpr key_eq
    · next skipped =>
      refine (rest node).cons fun e lives key_eq => ?_
      have bounds := rep.place_bounds lives
      rcases sound c mem_cons_self with unused | ⟨e', lives', hash⟩
      · have := (unused_iff.mp unused).2
        omega
      · rw [← lives.entry_unique lives', key_eq] at hash
        exact skipped ⟨hash, by omega, by omega⟩

theorem kvFind_found (rep : Rep g kv logs) (cacheOk : CacheOk g logs kv.cache)
    (unique : Unique g logs) {e : Entry} (lives : Lives g logs i off e) (node : Kvnode) :
    kvFind kv e.key.bytes node = .ok (true, e.node i off) := by
  rcases findLoop_spec rep e.key kv.cache node cacheOk.sound with
    ⟨i', off', e', lives', key_eq, found⟩ | ⟨absent, _⟩
  · obtain ⟨rfl, rfl, rfl⟩ := unique.same lives' lives key_eq
    exact found
  · obtain ⟨c, member, rfl, rfl⟩ := cacheOk.complete ⟨e, lives, rfl⟩
    exact absurd rfl (absent c member e lives)

theorem kvFind_missing (rep : Rep g kv logs) (cacheOk : CacheOk g logs kv.cache) {key : Key}
    (absent : ∀ value, ¬ Maps g logs key value) (node : Kvnode) :
    ∃ node', kvFind kv key.bytes node = .ok (false, node') := by
  rcases findLoop_spec rep key kv.cache node cacheOk.sound with
    ⟨i, off, e, lives, key_eq, _⟩ | ⟨_, missing⟩
  · exact absurd ⟨i, off, e, lives, key_eq, rfl⟩ (absent e.value)
  · exact missing

def getResult (size : Nat) : Option (List UInt8) → Int × List UInt8
  | some value => (value.length, value.take size)
  | none => (-1, [])

def Contents (g : Geometry) (logs : Nat → List Entry) (map : Key → Option (List UInt8)) : Prop :=
  ∀ key value, Maps g logs key value ↔ map key = some value

theorem kvGet_eq (rep : Rep g kv logs) (cacheOk : CacheOk g logs kv.cache)
    (unique : Unique g logs) {map : Key → Option (List UInt8)} (contents : Contents g logs map)
    (key : Key) (size : Nat) : kvGet kv key.bytes size = .ok (getResult size (map key)) := by
  unfold kvGet
  cases entry : map key with
  | some value =>
    obtain ⟨i, off, e, lives, rfl, rfl⟩ := (contents key value).mpr entry
    have bytes := rep.laid.valueOf lives (Nat.min_le_left e.value.length size)
    have taken : e.value.take (min e.value.length size) = e.value.take size := by
      rw [Nat.min_comm, ← take_take, take_length]
    rw [kvFind_found rep cacheOk unique lives]
    show Except.ok ((e.value.length : Int), readBytes _ 0 (min e.value.length size)) = _
    rw [bytes, taken]
    rfl
  | none =>
    have absent : ∀ value, ¬ Maps g logs key value := by
      intro value maps
      rw [(contents key value).mp maps] at entry
      exact Option.some_ne_none _ entry
    obtain ⟨node, missing⟩ := kvFind_missing rep cacheOk absent {}
    rw [missing]
    rfl

end Phy6212.Kv
