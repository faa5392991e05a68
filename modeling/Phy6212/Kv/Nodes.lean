import Phy6212.Kv.Image
import Phy6212.Runs.Faults

/-!
# The nodes of an arbitrary image

What can be said of any bytes, forged nodes among them. The nodes that an iteration comes upon are a
list (`nodesFrom`), which it walks when it leaves the flash alone (`iterLoop_eq_walk`), and
`kvblock_calc` counts it.
-/

namespace Phy6212.Kv

open List Function NorFlash Runs

/-! ## A search over bytes -/

/-- Where `kvblock_search` from offset `c` starts to look for a node. -/
def searchStart (rd : Nat → UInt8) (size c : Nat) : Nat := skipZeros rd (size - c) c

def searchAt (rd : Nat → UInt8) (size id c : Nat) (node : Kvnode) : Except Halt (Bool × Kvnode) :=
  searchLoop rd size (size - 1 - searchStart rd size c) (searchStart rd size c) none
    { node with block := some id, headOffset := u16 (searchStart rd size c) }

theorem kvblockSearch_eq (kv : Kvset) (block : Kvblock) (c : Nat) (node : Kvnode) :
    kvblockSearch kv block c node =
      searchAt (kv.read block) block.size block.id c node := rfl

variable {c i id size : Nat} {kv kv' : Kvset} {rd : Nat → UInt8} {n node : Kvnode} {g : Geometry}

theorem assertSize_ok {r : Bool × Kvnode} (ok : assertSize size node = .ok r) :
    r = (true, node) := by
  unfold assertSize at ok
  split at ok
  · exact (Except.ok.inj ok).symm
  · cases ok

/-- What a search loop that succeeds came upon: the NUL of a key that passes the test, or
the end of a line with a delimiter before it. -/
inductive Hit (rd : Nat → UInt8) (size c left : Nat) (node : Kvnode) : Kvnode → Prop where
  | rw {e : Nat} (low : c ≤ e) (high : e < c + left) (nul : rd e = 0)
      (accepted : rwRejected rd size e = false) : Hit rd size c left node (rwNode rd e node)
  | ro {d e : Nat} (low : c ≤ e) (high : e < c + left) (line : rd e = nlByte) :
      Hit rd size c left node (roNode d e node)

theorem Hit.later {left : Nat} (hit : Hit rd size (c + 1) left node n) :
    Hit rd size c (left + 1) node n := by
  cases hit with
  | rw low high nul accepted => exact .rw (by omega) (by omega) nul accepted
  | ro low high line => exact .ro (by omega) (by omega) line

theorem searchLoop_hit :
    ∀ {left c : Nat} {delim : Option Nat},
      searchLoop rd size left c delim node = .ok (true, n) → Hit rd size c left node n
  | 0, _, _, ok => by cases ok
  | left + 1, c, delim, ok => by
    unfold searchLoop at ok
    split at ok
    · next nul =>
      split at ok
      · exact (searchLoop_hit ok).later
      · next accepted =>
        cases assertSize_ok ok
        exact .rw (Nat.le_refl _) (by omega) nul (by simpa using accepted)
    split at ok
    · exact (searchLoop_hit ok).later
    split at ok
    · next line =>
      cases delim with
      | none => exact (searchLoop_hit ok).later
      | some d =>
        cases assertSize_ok ok
        exact .ro (Nat.le_refl _) (by omega) line
    · split at ok <;> exact (searchLoop_hit ok).later

theorem searchLoop_buffer {node' : Kvnode} (block : node'.block = node.block)
    (head : node'.headOffset = node.headOffset) :
    ∀ {left c : Nat} {delim : Option Nat}, searchLoop rd size left c delim node = .ok (true, n) →
      searchLoop rd size left c delim node' = .ok (true, n)
  | 0, _, _, ok => by cases ok
  | left + 1, c, delim, ok => by
    unfold searchLoop at ok ⊢
    have same_rw : rwNode rd c node' = rwNode rd c node := by simp [rwNode, block]
    have same_ro : ∀ d, roNode d c node' = roNode d c node := by
      intro d
      simp [roNode, block, head]
    split at ok
    · next nul =>
      rw [if_pos nul]
      split at ok
      · next rejected =>
        rw [if_pos rejected]
        exact searchLoop_buffer block head ok
      · next accepted =>
        rw [if_neg accepted, same_rw]
        exact ok
    · next nul =>
      rw [if_neg nul]
      split at ok
      · next delimiter =>
        rw [if_pos delimiter]
        exact searchLoop_buffer block head ok
      rename_i delimiter
      rw [if_neg delimiter]
      split at ok
      · next line =>
        rw [if_pos line]
        cases delim with
        | none => exact searchLoop_buffer block head ok
        | some d =>
          simp only at ok ⊢
          rw [same_ro]
          exact ok
      · next line =>
        rw [if_neg line]
        split at ok
        · next cr =>
          rw [if_pos cr]
          exact searchLoop_buffer block head ok
        · next cr =>
          rw [if_neg cr]
          exact searchLoop_buffer block head ok

theorem searchAt_found (node' : Kvnode) (ok : searchAt rd size id c node = .ok (true, n)) :
    searchAt rd size id c node' = .ok (true, n) := by
  refine searchLoop_buffer ?_ ?_ ok <;> rfl

theorem searchAt_block (ok : searchAt rd size id c node = .ok (true, n)) : n.block = some id := by
  cases searchLoop_hit ok with
  | rw low high nul accepted => rfl
  | ro low high line => rfl

/-! ## The nodes of a block -/

/-- The nodes that an iteration over the bytes of block `id` comes upon from offset `next`
on, the erased ones included. -/
def nodesFrom (rd : Nat → UInt8) (size id : Nat) : Nat → Nat → Except Halt (List Kvnode)
  | 0, _ => .error .spinning
  | rounds + 1, next => do
      let (found, node) ← searchAt rd size id next {}
      if found then do
        let rest ← nodesFrom rd size id rounds node.nextOffset
        .ok (node :: rest)
      else .ok []

def blockNodes (kv : Kvset) (i : Nat) : Except Halt (List Kvnode) :=
  nodesFrom (kv.read (kv.blocks i)) (kv.blocks i).size (kv.blocks i).id ((kv.blocks i).size + 1) 0

theorem nodesFrom_succ {rounds next : Nat} {nodes : List Kvnode}
    (ok : nodesFrom rd size id (rounds + 1) next = .ok nodes) :
    (∃ n rest, nodes = n :: rest ∧ searchAt rd size id next {} = .ok (true, n) ∧
        nodesFrom rd size id rounds n.nextOffset = .ok rest) ∨
      (nodes = [] ∧ ∃ n, searchAt rd size id next {} = .ok (false, n)) := by
  unfold nodesFrom at ok
  cases search : searchAt rd size id next {} with
  | error e => simp [search, bind, Except.bind] at ok
  | ok result =>
    obtain ⟨found, n⟩ := result
    simp only [search, bind, Except.bind] at ok
    cases found with
    | false => exact .inr ⟨(Except.ok.inj ok).symm, n, rfl⟩
    | true =>
      cases behind : nodesFrom rd size id rounds n.nextOffset with
      | error e => simp [behind] at ok
      | ok rest =>
        simp only [behind] at ok
        exact .inl ⟨n, rest, (Except.ok.inj ok).symm, rfl, behind⟩

theorem nodesFrom_length :
    ∀ {rounds next : Nat} {nodes : List Kvnode}, nodesFrom rd size id rounds next = .ok nodes →
      nodes.length ≤ rounds
  | 0, _, _, ok => by cases ok
  | rounds + 1, next, nodes, ok => by
    rcases nodesFrom_succ ok with ⟨n, rest, rfl, -, behind⟩ | ⟨rfl, -⟩
    · have shorter := nodesFrom_length behind
      simpa using shorter
    · exact Nat.zero_le _

theorem nodesFrom_found :
    ∀ {rounds next : Nat} {nodes : List Kvnode}, nodesFrom rd size id rounds next = .ok nodes →
      ∀ n ∈ nodes, ∃ c, searchAt rd size id c {} = .ok (true, n)
  | 0, _, _, ok => by cases ok
  | rounds + 1, next, nodes, ok => by
    rcases nodesFrom_succ ok with ⟨n, rest, rfl, search, behind⟩ | ⟨rfl, -⟩
    · intro m member
      rcases mem_cons.mp member with rfl | later
      · exact ⟨next, search⟩
      · exact nodesFrom_found behind m later
    · intro m member
      cases member

def walk {δ : Type} (fn : Kvnode → Kvset → δ → Except Halt (Int × Kvset × δ)) :
    List Kvnode → Kvset → δ → Except Halt (Int × Kvset × δ)
  | [], kv, data => .ok (0, kv, data)
  | node :: rest, kv, data => do
      let (ret, kv', data') ← fn node kv data
      if ret ≠ 0 then .ok (ret, kv', data') else walk fn rest kv' data'

structure SameView (i : Nat) (kv kv' : Kvset) : Prop where
  flash : kv'.flash = kv.flash
  id : (kv'.blocks i).id = (kv.blocks i).id
  mem : (kv'.blocks i).mem = (kv.blocks i).mem
  size : (kv'.blocks i).size = (kv.blocks i).size

theorem SameView.refl (i : Nat) (kv : Kvset) : SameView i kv kv := ⟨rfl, rfl, rfl, rfl⟩

theorem SameView.read (same : SameView i kv kv') :
    kv'.read (kv'.blocks i) = kv.read (kv.blocks i) := by
  funext o
  simp only [Kvset.read, same.flash, same.mem]

variable {δ : Type} {fn : Kvnode → Kvset → δ → Except Halt (Int × Kvset × δ)} {all : Bool}

theorem iterLoop_eq_walk (keeps : ∀ node kv data r, fn node kv data = .ok r → SameView i kv r.2.1) :
    ∀ {rounds next : Nat} {kv : Kvset} {data : δ} {nodes : List Kvnode},
      nodesFrom (kv.read (kv.blocks i)) (kv.blocks i).size (kv.blocks i).id rounds next =
        .ok nodes →
      iterLoop i all fn rounds next kv data =
        walk fn (nodes.filter fun n => all || n.valid) kv data
  | 0, _, _, _, _, ok => by cases ok
  | rounds + 1, next, kv, data, nodes, ok => by
    unfold iterLoop
    rw [kvblockSearch_eq]
    rcases nodesFrom_succ ok with ⟨n, rest, rfl, search, behind⟩ | ⟨rfl, n, search⟩
    · simp only [search, bind, Except.bind, if_true]
      cases chosen : (all || n.valid) with
      | false =>
        rw [filter_cons_of_neg (by simp [chosen])]
        exact iterLoop_eq_walk keeps behind
      | true =>
        rw [filter_cons_of_pos (by simp [chosen]), walk]
        simp only [if_true, bind, Except.bind]
        cases called : fn n kv data with
        | error e => rfl
        | ok result =>
          obtain ⟨ret, kv', data'⟩ := result
          have same : SameView i kv kv' := keeps n kv data _ called
          have moved : nodesFrom (kv'.read (kv'.blocks i)) (kv'.blocks i).size
              (kv'.blocks i).id rounds n.nextOffset = .ok rest := by
            rw [same.read, same.size, same.id]
            exact behind
          simp only [iterLoop_eq_walk keeps moved]
    · simp only [search, bind, Except.bind, Bool.false_eq_true, if_false]
      rfl

theorem nodesFrom_of_iterLoop
    (keeps : ∀ node kv data r, fn node kv data = .ok r → SameView i kv r.2.1) :
    ∀ {rounds next : Nat} {kv kv' : Kvset} {data data' : δ},
      iterLoop i all fn rounds next kv data = .ok (0, kv', data') →
      ∃ nodes, nodesFrom (kv.read (kv.blocks i)) (kv.blocks i).size (kv.blocks i).id rounds next =
        .ok nodes
  | 0, _, _, _, _, _, ok => by cases ok
  | rounds + 1, next, kv, kv', data, data', ok => by
    unfold iterLoop at ok
    unfold nodesFrom
    rw [kvblockSearch_eq] at ok
    cases search : searchAt _ (kv.blocks i).size (kv.blocks i).id next {} with
    | error e => simp [search, bind, Except.bind] at ok
    | ok result =>
      obtain ⟨found, n⟩ := result
      simp only [search, bind, Except.bind] at ok ⊢
      cases found with
      | false => exact ⟨[], rfl⟩
      | true =>
        have rest : ∃ nodes, nodesFrom (kv.read (kv.blocks i)) (kv.blocks i).size
            (kv.blocks i).id rounds n.nextOffset = .ok nodes := by
          simp only [if_true] at ok
          split at ok
          · cases called : fn n kv data with
            | error e => simp [called] at ok
            | ok result =>
              obtain ⟨ret, kv₁, data₁⟩ := result
              have same : SameView i kv kv₁ := keeps n kv data _ called
              simp only [called] at ok
              split at ok
              · next stopped =>
                cases ok
                exact absurd rfl stopped
              · have behind := nodesFrom_of_iterLoop keeps ok
                rw [same.read, same.size, same.id] at behind
                exact behind
          · exact nodesFrom_of_iterLoop keeps ok
        obtain ⟨nodes, behind⟩ := rest
        refine ⟨n :: nodes, ?_⟩
        simp only [if_true, behind]

theorem iterLoop_unstopped (never : ∀ node kv data r, fn node kv data = .ok r → r.1 = 0) :
    ∀ (rounds next : Nat) (kv : Kvset) (data : δ),
      Leaves (fun r => r.1 = 0) (iterLoop i all fn rounds next kv data)
  | 0, _, _, _ => id
  | rounds + 1, next, kv, data => by
    refine (leaves_self _).bind ?_
    rintro ⟨found, node⟩ -
    cases found with
    | false => exact rfl
    | true =>
      simp only [if_true]
      split
      · refine (leaves_self _).bind ?_
        rintro ⟨ret, kv', data'⟩ called
        have zero : ret = 0 := never node kv data _ called
        simp only [zero, ne_eq, not_true_eq_false, if_false]
        exact iterLoop_unstopped never rounds _ kv' data'
      · exact iterLoop_unstopped never rounds _ kv data

theorem iterLoop_leaves {holds : Kvset → Prop} (visits : Nat → Prop)
    (call : ∀ kv next node, holds kv → visits next →
      kvblockSearch kv (kv.blocks i) next {} = .ok (true, node) → visits node.nextOffset ∧
        ((all || node.valid) = true → ∀ data, Leaves (fun r => holds r.2.1) (fn node kv data))) :
    ∀ (rounds next : Nat) (kv : Kvset) (data : δ), holds kv → visits next →
      Leaves (fun r => holds r.2.1) (iterLoop i all fn rounds next kv data)
  | 0, _, _, _, _, _ => id
  | rounds + 1, next, kv, data, held, visited => by
    refine (leaves_self _).bind ?_
    rintro ⟨found, node⟩ search
    cases found with
    | false => exact held
    | true =>
      obtain ⟨onward, called⟩ := call kv next node held visited search
      simp only [if_true]
      split
      · next chosen =>
        refine (called chosen data).bind ?_
        rintro ⟨ret, kv', data'⟩ held'
        split
        · exact held'
        · exact iterLoop_leaves visits call rounds _ kv' data' held' onward
      · exact iterLoop_leaves visits call rounds _ kv data held onward

/-! ## Records -/

structure SameShape (kv kv' : Kvset) : Prop where
  num : kv'.num = kv.num
  id : ∀ j, (kv'.blocks j).id = (kv.blocks j).id
  mem : ∀ j, (kv'.blocks j).mem = (kv.blocks j).mem
  size : ∀ j, (kv'.blocks j).size = (kv.blocks j).size

theorem SameShape.refl (kv : Kvset) : SameShape kv kv :=
  ⟨rfl, fun _ => rfl, fun _ => rfl, fun _ => rfl⟩

theorem SameShape.trans {kv'' : Kvset} (first : SameShape kv kv') (second : SameShape kv' kv'') :
    SameShape kv kv'' where
  num := second.num.trans first.num
  id j := (second.id j).trans (first.id j)
  mem j := (second.mem j).trans (first.mem j)
  size j := (second.size j).trans (first.size j)

theorem setBlock_other (kv : Kvset) {j : Nat} (different : j ≠ i) (block : Kvblock) :
    (kv.setBlock i block).blocks j = kv.blocks j :=
  update_of_ne different ..

theorem setBlock_shape {block : Kvblock} (id : block.id = (kv.blocks i).id)
    (mem : block.mem = (kv.blocks i).mem) (size : block.size = (kv.blocks i).size) :
    SameShape kv (kv.setBlock i block) := by
  refine ⟨rfl, ?_, ?_, ?_⟩
  all_goals
    intro j
    by_cases same : j = i
    · subst same
      simp only [Kvset.setBlock, update_self]
      assumption
    · rw [setBlock_other kv same]

theorem flashWrite_shape (kv : Kvset) (block : Kvblock) (pos : Nat) (data : List UInt8) :
    SameShape kv (kv.flashWrite block pos data) := by
  unfold Kvset.flashWrite
  split
  · exact ⟨rfl, fun _ => rfl, fun _ => rfl, fun _ => rfl⟩
  · exact .refl kv

theorem kvblockGc_shape (kv : Kvset) (i : Nat) : SameShape kv (kvblockGc kv i) := by
  have erased : SameShape kv (kv.flashErase (kv.blocks i)) :=
    ⟨rfl, fun _ => rfl, fun _ => rfl, fun _ => rfl⟩
  exact erased.trans (setBlock_shape rfl rfl rfl)

theorem flashWrite_blocks (kv : Kvset) (block : Kvblock) (pos : Nat) (data : List UInt8) :
    (kv.flashWrite block pos data).blocks = kv.blocks := by
  unfold Kvset.flashWrite
  split <;> rfl

theorem kvnodeRm_shape (kv : Kvset) (node : Kvnode) : SameShape kv (kvnodeRm kv node) := by
  unfold kvnodeRm
  split
  · exact .refl kv
  rename_i i named
  split
  · simp only
    split
    · refine (flashWrite_shape kv _ _ [0, 0, 0, 0]).trans
        (setBlock_shape ?_ ?_ ?_) <;> rw [flashWrite_blocks]
    · exact kvblockGc_shape kv i
  · exact .refl kv

theorem countNode_shape (kv : Kvset) (node : Kvnode) (i : Nat) :
    SameShape kv (kv.setBlock i (countNode node (kv.blocks i))) := by
  unfold countNode
  apply setBlock_shape <;> (split <;> rfl)

/-! ## Searches and removals -/

/-- A property of the store that the removal of a good node keeps, where a search at an
offset that is visited finds good nodes only and leads to a visited offset. -/
structure Removing (n : Nat) (holds : Kvset → Prop) (visits : Nat → Nat → Prop)
    (good : Kvnode → Prop) : Prop where
  num : ∀ kv, holds kv → kv.num = n
  start : ∀ i, visits i 0
  search : ∀ kv i next node, holds kv → i < n → visits i next →
    kvblockSearch kv (kv.blocks i) next {} = .ok (true, node) →
      good node ∧ visits i node.nextOffset
  remove : ∀ kv node, holds kv → good node → holds (kvnodeRm kv node)

namespace Removing

variable {n : Nat} {holds : Kvset → Prop} {visits : Nat → Nat → Prop} {good : Kvnode → Prop}
  {node1 : Kvnode}

section

variable (rules : Removing n holds visits good)

include rules

theorem checkVersion {node2 : Kvnode} (held : holds kv)
    (good1 : good node1) (good2 : good node2) : holds (kvblockCheckVersion kv node1 node2).2 := by
  unfold kvblockCheckVersion
  split
  · exact held
  split
  · exact rules.remove kv node1 held good1
  · exact rules.remove kv node2 held good2
  · exact held

theorem verifyAgainst {j : Nat} (good1 : good node1)
    (within : j < n) : ∀ (rounds next : Nat) (kv : Kvset), holds kv →
      visits j next → Leaves (fun r => holds r.2) (Kv.verifyAgainst node1 j rounds next kv)
  | 0, _, _, _, _ => id
  | rounds + 1, next, kv, held, visited => by
    refine (leaves_self _).bind ?_
    rintro ⟨found, node2⟩ search
    cases found with
    | false => exact held
    | true =>
      obtain ⟨good2, onward⟩ := rules.search kv j next node2 held within visited search
      have held' := rules.checkVersion held good1 good2
      simp only [if_true]
      split
      · split
        · exact held'
        · exact verifyAgainst good1 within rounds _ _ held' onward
      · exact verifyAgainst good1 within rounds _ _ held onward

theorem verifyBlocks (good1 : good node1)
    (visited : visits i node1.nextOffset) : ∀ (left j : Nat) (kv : Kvset),
      left + j ≤ n → holds kv → Leaves holds (Kv.verifyBlocks node1 i left j kv)
  | 0, _, _, _, held => held
  | left + 1, j, kv, bound, held => by
    have from_start : visits j (if j = i then node1.nextOffset else 0) := by
      split
      · next same =>
        rw [same]
        exact visited
      · exact rules.start j
    refine (rules.verifyAgainst good1 (by omega) _ _ kv held from_start).bind ?_
    rintro ⟨removed, kv'⟩ held'
    cases removed with
    | true => exact held'
    | false => exact verifyBlocks good1 visited left _ kv' (by omega) held'

theorem verifyBlock (within : i < n) :
    ∀ (rounds next : Nat) (kv : Kvset), holds kv → visits i next →
      Leaves holds (Kv.verifyBlock i rounds next kv)
  | 0, _, _, _, _ => id
  | rounds + 1, next, kv, held, visited => by
    refine (leaves_self _).bind ?_
    rintro ⟨found, node1⟩ search
    cases found with
    | false => exact held
    | true =>
      obtain ⟨good1, onward⟩ := rules.search kv i next node1 held within visited search
      simp only [if_true]
      split
      · have num := rules.num kv held
        refine (rules.verifyBlocks good1 onward _ i kv (by omega) held).bind ?_
        intro kv' held'
        exact verifyBlock within rounds _ kv' held' onward
      · exact verifyBlock within rounds _ kv held onward

theorem verifyFrom : ∀ (left i : Nat) (kv : Kvset),
    left + i ≤ n → holds kv → Leaves holds (Kv.verifyFrom left i kv)
  | 0, _, _, _, held => held
  | left + 1, i, kv, bound, held => by
    refine (rules.verifyBlock (by omega) _ 0 kv held (rules.start i)).bind ?_
    intro kv' held'
    exact verifyFrom left _ kv' (by omega) held'

theorem verify (held : holds kv) : Leaves holds (kvVerify kv) := by
  have num := rules.num kv held
  exact rules.verifyFrom kv.num 0 kv (by omega) held

theorem blockReset (within : i < n) (held : holds kv) : Leaves holds (kvblockReset kv i) := by
  have iterated : Leaves (fun r => holds r.2.1) (kvblockIter i false iterRmAllRwNode kv ()) := by
    refine iterLoop_leaves _ ?_ _ 0 kv () held (rules.start i)
    intro kv next node held visited search
    obtain ⟨fine, onward⟩ := rules.search kv i next node held within visited search
    exact ⟨onward, fun _ _ => rules.remove kv node held fine⟩
  exact iterated.bind fun _ held' => held'

theorem resetFrom : ∀ (left i : Nat) (kv : Kvset),
    left + i ≤ n → holds kv → Leaves holds (kvResetFrom left i kv)
  | 0, _, _, _, held => held
  | left + 1, i, kv, bound, held => by
    refine (rules.blockReset (by omega) held).bind ?_
    intro kv' held'
    exact resetFrom left _ kv' (by omega) held'

theorem reset (held : holds kv) : Leaves (fun r => holds r.2) (kvReset kv) := by
  have num := rules.num kv held
  exact (rules.resetFrom kv.num 0 kv (by omega) held).bind fun _ held' => held'

end

end Removing

/-! ## Mounting -/

/-- The first `n` blocks of a store are the blocks of its partition. -/
structure Shaped (g : Geometry) (n : Nat) (kv : Kvset) : Prop where
  num : kv.num = g.num
  id : ∀ i < n, (kv.blocks i).id = i
  mem : ∀ i < n, (kv.blocks i).mem = i * g.size
  size : ∀ i < n, (kv.blocks i).size = g.size

theorem Shaped.mono {n : Nat} (shaped : Shaped g n kv) (same : SameShape kv kv') :
    Shaped g n kv' where
  num := same.num.trans shaped.num
  id i within := (same.id i).trans (shaped.id i within)
  mem i within := (same.mem i).trans (shaped.mem i within)
  size i within := (same.size i).trans (shaped.size i within)

theorem Shaped.succ {j : Nat} (shaped : Shaped g j kv) (num : kv'.num = kv.num)
    (others : ∀ k, k ≠ j → kv'.blocks k = kv.blocks k) (id : (kv'.blocks j).id = j)
    (mem : (kv'.blocks j).mem = j * g.size) (size : (kv'.blocks j).size = g.size) :
    Shaped g (j + 1) kv' := by
  have cases_below : ∀ k < j + 1, k = j ∨ (k < j ∧ kv'.blocks k = kv.blocks k) := by
    intro k below
    by_cases here : k = j
    · exact .inl here
    · exact .inr ⟨by omega, others k here⟩
  refine ⟨num.trans shaped.num, ?_, ?_, ?_⟩
  · intro k below
    rcases cases_below k below with rfl | ⟨earlier, same⟩
    · exact id
    · rw [same]
      exact shaped.id k earlier
  · intro k below
    rcases cases_below k below with rfl | ⟨earlier, same⟩
    · exact mem
    · rw [same]
      exact shaped.mem k earlier
  intro k below
  rcases cases_below k below with rfl | ⟨earlier, same⟩
  · exact size
  · rw [same]
    exact shaped.size k earlier

theorem Shaped.read {n : Nat} (shaped : Shaped g n kv) (within : i < n) :
    kv.read (kv.blocks i) = blockBytes g kv.flash i := by
  funext o
  simp only [Kvset.read, blockBytes, shaped.mem i within]

theorem Shaped.search (shaped : Shaped g g.num kv) (within : i < g.num) (c : Nat) (node : Kvnode) :
    kvblockSearch kv (kv.blocks i) c node = searchAt (blockBytes g kv.flash i) g.size i c node := by
  rw [kvblockSearch_eq, shaped.read within, shaped.size i within, shaped.id i within]

structure Calculated (i : Nat) (kv kv' : Kvset) : Prop where
  shape : SameShape kv kv'
  flash : kv'.flash = kv.flash
  others : ∀ j, j ≠ i → kv'.blocks j = kv.blocks j
  bid : kv'.bid = kv.bid
  gcBid : kv'.gcBid = kv.gcBid
  cache : kv'.cache = kv.cache

theorem Calculated.refl (i : Nat) (kv : Kvset) : Calculated i kv kv :=
  ⟨.refl kv, rfl, fun _ _ => rfl, rfl, rfl, rfl⟩

theorem Calculated.trans {kv'' : Kvset} (first : Calculated i kv kv')
    (second : Calculated i kv' kv'') : Calculated i kv kv'' where
  shape := first.shape.trans second.shape
  flash := second.flash.trans first.flash
  others j different := (second.others j different).trans (first.others j different)
  bid := second.bid.trans first.bid
  gcBid := second.gcBid.trans first.gcBid
  cache := second.cache.trans first.cache

theorem Calculated.view (same : Calculated i kv kv') : SameView i kv kv' :=
  ⟨same.flash, same.shape.id i, same.shape.mem i, same.shape.size i⟩

theorem setBlock_calculated {block : Kvblock} (id : block.id = (kv.blocks i).id)
    (mem : block.mem = (kv.blocks i).mem) (size : block.size = (kv.blocks i).size) :
    Calculated i kv (kv.setBlock i block) :=
  ⟨setBlock_shape id mem size, rfl, fun _ different => setBlock_other kv different block, rfl, rfl,
    rfl⟩

def Kvnode.readOnly (node : Kvnode) : Bool := node.valid && !node.rw

theorem walk_iterCalc : ∀ (nodes : List Kvnode) (kv : Kvset),
    (∀ n ∈ nodes, n.block = some i) → (kv.blocks i).count < 65536 →
    (kv.blocks i).roCount < 65536 →
    ∃ kv', walk iterCalc nodes kv () = .ok (0, kv', ()) ∧ Calculated i kv kv' ∧
      (kv'.blocks i).count = u16 ((kv.blocks i).count + nodes.countP Kvnode.valid) ∧
      (kv'.blocks i).roCount = u16 ((kv.blocks i).roCount + nodes.countP Kvnode.readOnly)
  | [], kv, _, small, roSmall =>
    ⟨kv, rfl, .refl i kv, by simp [u16_of_lt small], by simp [u16_of_lt roSmall]⟩
  | node :: rest, kv, named, small, roSmall => by
    have here : node.block = some i := named node mem_cons_self
    have counted : Calculated i kv (kv.setBlock i (countNode node (kv.blocks i))) := by
      unfold countNode
      apply setBlock_calculated <;> (split <;> rfl)
    have record : (kv.setBlock i _).blocks i = countNode node (kv.blocks i) := update_self ..
    have count : (countNode node (kv.blocks i)).count =
        u16 ((kv.blocks i).count + if node.valid then 1 else 0) := by
      unfold countNode
      cases node.valid <;> simp [u16_of_lt small]
    have roCount : (countNode node (kv.blocks i)).roCount =
        u16 ((kv.blocks i).roCount + if node.readOnly then 1 else 0) := by
      unfold countNode Kvnode.readOnly
      cases node.valid <;> cases node.rw <;> simp [u16_of_lt roSmall]
    obtain ⟨kv', walked, same, total, roTotal⟩ :=
      walk_iterCalc rest _
        (fun n member => named n (mem_cons_of_mem _ member))
        (by rw [record, count]; exact Nat.mod_lt _ (by decide))
        (by rw [record, roCount]; exact Nat.mod_lt _ (by decide))
    refine ⟨kv', ?_, counted.trans same, ?_, ?_⟩
    · simp only [walk, iterCalc, here, bind, Except.bind]
      exact walked
    · rw [total, record, count, countP_cons]
      simp only [u16]
      omega
    · rw [roTotal, record, roCount, countP_cons]
      simp only [u16]
      omega

theorem kvblockCalc_counts (named : (kv.blocks i).id = i) (ok : kvblockCalc kv i = .ok kv') :
    Calculated i kv kv' ∧ ∃ nodes, blockNodes kv i = .ok nodes ∧
      (kv'.blocks i).count = u16 (nodes.countP Kvnode.valid) ∧
      (kv'.blocks i).roCount = u16 (nodes.countP Kvnode.readOnly) := by
  have keeps : ∀ node kv data r, iterCalc node kv data = .ok r → SameView i kv r.2.1 := by
    intro node kv data r called
    unfold iterCalc at called
    split at called <;> cases called
    · exact .refl i kv
    · next j _ =>
      have shape := countNode_shape kv node j
      exact ⟨rfl, shape.id i, shape.mem i, shape.size i⟩
  have never : ∀ node kv data r, iterCalc node kv data = .ok r → r.1 = 0 := by
    intro node kv data r called
    unfold iterCalc at called
    split at called <;> cases called <;> rfl
  have cleared : Calculated i kv (kv.setBlock i
      { kv.blocks i with dirtySize := 0, kvSize := 0, count := 0, roCount := 0 }) :=
    setBlock_calculated rfl rfl rfl
  unfold kvblockCalc at ok
  generalize start : kv.setBlock i
    { kv.blocks i with dirtySize := 0, kvSize := 0, count := 0, roCount := 0 } = kv₀ at ok cleared
  have zero : (kv₀.blocks i).count = 0 ∧ (kv₀.blocks i).roCount = 0 := by
    rw [← start]
    simp [Kvset.setBlock]
  cases iterated : kvblockIter i true iterCalc kv₀ () with
  | error e => simp [iterated, bind, Except.bind] at ok
  | ok result =>
    obtain ⟨ret, kv₁, data⟩ := result
    have ended : ret = 0 := (iterLoop_unstopped never _ _ kv₀ ()).ok iterated
    subst ended
    obtain ⟨nodes, listed⟩ := nodesFrom_of_iterLoop keeps iterated
    have here : ∀ n ∈ nodes, n.block = some i := by
      intro n member
      obtain ⟨c, search⟩ := nodesFrom_found listed n member
      rw [searchAt_block search, cleared.shape.id i, named]
    obtain ⟨kv₂, walked, same, count, roCount⟩ := walk_iterCalc nodes kv₀ here
      (by rw [zero.1]; decide) (by rw [zero.2]; decide)
    have reached : kv₂ = kv₁ := by
      have equal : kvblockIter i true iterCalc kv₀ () = walk iterCalc _ kv₀ () :=
        iterLoop_eq_walk keeps listed
      have whole : (nodes.filter fun n => true || n.valid) = nodes := by simp
      rw [whole, walked, iterated] at equal
      cases equal
      rfl
    subst reached
    simp only [iterated, bind, Except.bind] at ok
    cases ok
    refine ⟨cleared.trans (same.trans (setBlock_calculated rfl rfl rfl)), nodes, ?_, ?_, ?_⟩
    · have view := cleared.view
      rw [view.read, view.size, view.id] at listed
      exact listed
    · simp only [Kvset.setBlock, update_self, count, zero.1, Nat.zero_add]
    · simp only [Kvset.setBlock, update_self, roCount, zero.2, Nat.zero_add]

theorem kvblockInit_shape {mem : Nat} (named : (kv.blocks i).id = i) :
    Leaves (SameShape (kv.setBlock i { kv.blocks i with size := u16 size, mem := mem }))
      (kvblockInit kv i mem size) := by
  refine (leaves_self _).bind ?_
  intro kv' calculated
  have same := (kvblockCalc_counts (by simpa [Kvset.setBlock] using named) calculated).1.shape
  simp only
  split
  · split
    · exact same.trans (kvblockGc_shape kv' i)
    · split
      · exact same.trans (kvblockGc_shape kv' i)
      · exact same
  · exact same

theorem initBlocks_shaped : ∀ (left i gcSize : Nat) (kv : Kvset), left + i = g.num →
    Shaped g i kv → Leaves (Shaped g g.num) (initBlocks g.size left i gcSize kv)
  | 0, i, _, kv, total, shaped => by
    have all : i = g.num := by omega
    rw [← all]
    exact shaped
  | left + 1, i, gcSize, kv, total, shaped => by
    have named : ((kv.setBlock i { kv.blocks i with id := i }).blocks i).id = i := by
      simp [Kvset.setBlock]
    refine (kvblockInit_shape named).bind ?_
    intro kv' same
    have next : Shaped g (i + 1) kv' := by
      refine (shaped.succ ?_ ?_ ?_ ?_ ?_).mono same
      · rfl
      · intro k different
        rw [setBlock_other _ different, setBlock_other _ different]
      all_goals simp [Kvset.setBlock, u16_of_lt g.small]
    simp only
    split
    · exact initBlocks_shaped left _ _ _ (by omega) { next with }
    split
    · exact initBlocks_shaped left _ _ _ (by omega)
        { next with }
    · exact initBlocks_shaped left _ _ kv' (by omega) next

theorem removing_shaped (g : Geometry) :
    Removing g.num (Shaped g g.num) (fun _ _ => True) (fun _ => True) where
  num _ shaped := shaped.num
  start _ := trivial
  search _ _ _ _ _ _ _ _ := ⟨trivial, trivial⟩
  remove kv node shaped _ := shaped.mono (kvnodeRm_shape kv node)

end Phy6212.Kv
