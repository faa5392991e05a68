import Phy6212.Kv.Mount
import Phy6212.Kv.Nodes

/-!
# The start of the store comes to an end

A search that succeeds has come upon a NUL or the end of a line, and its node ends behind the place
where it started (`searchAt_next`).
-/

namespace Phy6212.Kv

open NorFlash Runs

/-- A call that does not come back for another reason than an assertion. -/
def Stuck (halt : Halt) : Prop := halt ≠ .assertion

/-- The largest block for which the offsets behind a node are numbers of 16 bits. -/
def largestBlock : Nat := 32768

variable {rd : Nat → UInt8} {size id c : Nat} {node n : Kvnode}

theorem le_skipZeros (rd : Nat → UInt8) (bound c : Nat) : c ≤ skipZeros rd bound c := by
  induction bound generalizing c with
  | zero => exact Nat.le_refl c
  | succ bound ih =>
    rw [skipZeros]
    split
    · exact Nat.le_trans (Nat.le_succ c) (ih _)
    · exact Nat.le_refl c

theorem packedKeySize_le (rd : Nat → UInt8) (c : Nat) : packedKeySize rd c ≤ 63 := by
  have byte := (rd (c + 2)).toNat_lt
  rw [packedKeySize, Nat.shiftRight_eq_div_pow]
  omega

theorem le_align4 (x : Nat) : x ≤ align4 x := by
  unfold align4
  split <;> omega

theorem align4_le (x : Nat) : align4 x ≤ x + 3 := by
  unfold align4
  split <;> omega

theorem rwNode_nextOffset {e : Nat} (node : Kvnode) (small : size ≤ largestBlock)
    (accepted : rwRejected rd size e = false) :
    e + packedValueSize rd e + 10 ≤ (rwNode rd e node).nextOffset := by
  have inside : e + packedValueSize rd e < size := by
    simp only [rwRejected, Bool.or_eq_false_iff, decide_eq_false_iff_not] at accepted
    omega
  have keyInside : packedKeySize rd e ≤ e := by
    simp only [rwRejected, Bool.or_eq_false_iff, decide_eq_false_iff_not] at accepted
    omega
  have low := le_align4 (packedKeySize rd e + packedValueSize rd e + rwFlagSize + 1)
  have high := align4_le (packedKeySize rd e + packedValueSize rd e + rwFlagSize + 1)
  simp only [rwNode, u16, largestBlock, rwFlagSize] at *
  omega

theorem searchLoop_meets (rd : Nat → UInt8) (size : Nat) (node : Kvnode) (left c : Nat)
    (delim : Option Nat) : Meets Stuck (fun _ => True) (searchLoop rd size left c delim node) := by
  have asserted : ∀ n : Kvnode, Meets Stuck (fun _ => True) (assertSize size n) := by
    intro n
    unfold assertSize
    split
    · trivial
    · exact fun stuck => stuck rfl
  induction left generalizing c delim with
  | zero => trivial
  | succ left ih =>
    unfold searchLoop
    split
    · split
      · exact ih _ _
      · exact asserted _
    split
    · exact ih _ _
    split
    · cases delim with
      | none => exact ih _ _
      | some d => exact asserted _
    · split
      · exact ih _ _
      · exact ih _ _

theorem searchAt_next (small : size ≤ largestBlock)
    (ok : searchAt rd size id c node = .ok (true, n)) : c < size ∧ c < n.nextOffset := by
  have start := le_skipZeros rd (size - c) c
  cases searchLoop_hit ok with
  | @rw e low high nul accepted =>
    have behind := rwNode_nextOffset
      { node with block := some id, headOffset := u16 (searchStart rd size c) } small accepted
    unfold searchStart at *
    omega
  | @ro d e low high line =>
    simp only [roNode, u16, searchStart, largestBlock] at *
    omega

def Kvset.Small (kv : Kvset) : Prop := ∀ j, (kv.blocks j).size ≤ largestBlock

variable {kv : Kvset} {i left next rounds : Nat} {δ : Type}

theorem Kvset.Small.mono {kv' : Kvset} (small : kv.Small) (same : SameShape kv kv') :
    kv'.Small := by
  intro j
  rw [same.size j]
  exact small j

theorem Kvset.Small.setBlock {block : Kvblock} (small : kv.Small) (i : Nat)
    (fits : block.size ≤ largestBlock) : (kv.setBlock i block).Small := by
  intro j
  by_cases same : j = i
  · rw [same, setBlock_self]
    exact fits
  · rw [setBlock_other kv same]
    exact small j

/-- A round of a loop over the nodes of a block: behind the node that is found, fewer bytes are left
than there are rounds. -/
theorem search_round {α : Type} {post : α → Prop} {after : Bool × Kvnode → Except Halt α}
    (small : kv.Small) (enough : (kv.blocks i).size - next < rounds + 1)
    (missed : ∀ node, Meets Stuck post (after (false, node)))
    (found : ∀ node, (kv.blocks i).size - node.nextOffset < rounds →
      Meets Stuck post (after (true, node))) :
    Meets Stuck post (kvblockSearch kv (kv.blocks i) next {} >>= after) := by
  refine (searchLoop_meets _ _ _ _ _ _).returns.bind ?_
  rintro ⟨hit, node⟩ ⟨-, search⟩
  cases hit with
  | false => exact missed node
  | true =>
    have forward := searchAt_next (small i) search
    exact found node (by omega)

theorem iterLoop_ends {all : Bool} {fn : Kvnode → Kvset → δ → Except Halt (Int × Kvset × δ)}
    (call : ∀ node kv data, Meets Stuck (fun r => SameShape kv r.2.1) (fn node kv data)) {data : δ}
    (small : kv.Small) (enough : (kv.blocks i).size - next < rounds) :
    Meets Stuck (fun r => SameShape kv r.2.1) (iterLoop i all fn rounds next kv data) := by
  induction rounds generalizing next kv data with
  | zero => exact absurd enough (Nat.not_lt_zero _)
  | succ rounds ih =>
    refine search_round small enough (fun _ => SameShape.refl kv) fun node left => ?_
    simp only [if_true]
    split
    · refine (call node kv data).bind ?_
      rintro ⟨ret, kv', data'⟩ same
      split
      · exact same
      · rw [← same.size i] at left
        exact (ih (small.mono same) left).mono fun _ => same.trans
    · exact ih small left

theorem kvblockCheckVersion_shape (kv : Kvset) (node1 node2 : Kvnode) :
    SameShape kv (kvblockCheckVersion kv node1 node2).2 := by
  unfold kvblockCheckVersion
  split
  · exact .refl kv
  split
  · exact kvnodeRm_shape kv node1
  · exact kvnodeRm_shape kv node2
  · exact .refl kv

theorem verifyAgainst_ends {node1 : Kvnode} {j : Nat} (small : kv.Small)
    (enough : (kv.blocks j).size - next < rounds) :
    Meets Stuck (fun r => SameShape kv r.2) (verifyAgainst node1 j rounds next kv) := by
  induction rounds generalizing next kv with
  | zero => exact absurd enough (Nat.not_lt_zero _)
  | succ rounds ih =>
    refine search_round small enough (fun _ => SameShape.refl kv) fun node2 left => ?_
    have same := kvblockCheckVersion_shape kv node1 node2
    simp only [if_true]
    split
    · split
      · exact same
      · rw [← same.size j] at left
        exact (ih (small.mono same) left).mono fun _ => same.trans
    · exact ih small left

theorem verifyBlocks_ends {node1 : Kvnode} {j : Nat} (small : kv.Small) :
    Meets Stuck (SameShape kv) (verifyBlocks node1 i left j kv) := by
  induction left generalizing j kv with
  | zero => exact SameShape.refl kv
  | succ left ih =>
    refine (verifyAgainst_ends small (Nat.lt_succ_of_le (Nat.sub_le _ _))).bind ?_
    rintro ⟨removed, kv'⟩ same
    cases removed with
    | true => exact same
    | false => exact (ih (small.mono same)).mono fun _ => same.trans

theorem verifyBlock_ends (small : kv.Small) (enough : (kv.blocks i).size - next < rounds) :
    Meets Stuck (SameShape kv) (verifyBlock i rounds next kv) := by
  induction rounds generalizing next kv with
  | zero => exact absurd enough (Nat.not_lt_zero _)
  | succ rounds ih =>
    refine search_round small enough (fun _ => SameShape.refl kv) fun node1 left => ?_
    simp only [if_true]
    split
    · refine (verifyBlocks_ends small).bind ?_
      intro kv' same
      rw [← same.size i] at left
      exact (ih (small.mono same) left).mono fun _ => same.trans
    · exact ih small left

theorem verifyFrom_ends (small : kv.Small) : Meets Stuck (SameShape kv) (verifyFrom left i kv) := by
  induction left generalizing i kv with
  | zero => exact SameShape.refl kv
  | succ left ih =>
    refine (verifyBlock_ends small (Nat.lt_succ_of_le (Nat.sub_le _ _))).bind ?_
    intro kv' same
    exact (ih (small.mono same)).mono fun _ => same.trans

theorem kvblockIter_ends {all : Bool} {fn : Kvnode → Kvset → δ → Except Halt (Int × Kvset × δ)}
    (call : ∀ node kv data, Meets Stuck (fun r => SameShape kv r.2.1) (fn node kv data)) {data : δ}
    (small : kv.Small) : Meets Stuck (fun r => SameShape kv r.2.1) (kvblockIter i all fn kv data) :=
  iterLoop_ends call small (Nat.lt_succ_of_le (Nat.sub_le _ _))

theorem iterCalc_meets (node : Kvnode) (kv : Kvset) (data : Unit) :
    Meets Stuck (fun r => SameShape kv r.2.1) (iterCalc node kv data) := by
  unfold iterCalc
  split
  · exact SameShape.refl kv
  · exact countNode_shape kv node _

theorem kvblockCalc_ends (small : kv.Small) : Meets Stuck (SameShape kv) (kvblockCalc kv i) := by
  have cleared : SameShape kv (kv.setBlock i
      { kv.blocks i with dirtySize := 0, kvSize := 0, count := 0, roCount := 0 }) :=
    setBlock_shape rfl rfl rfl
  refine (kvblockIter_ends iterCalc_meets (small.mono cleared)).bind ?_
  rintro ⟨ret, kv', data⟩ same
  exact cleared.trans (same.trans (setBlock_shape rfl rfl rfl))

theorem kvblockInit_ends {mem : Nat} (small : kv.Small) (fits : size ≤ largestBlock) :
    Meets Stuck Kvset.Small (kvblockInit kv i mem size) := by
  have placed : (kv.setBlock i { kv.blocks i with size := u16 size, mem := mem }).Small :=
    small.setBlock i (Nat.le_trans (Nat.mod_le _ _) fits)
  refine (kvblockCalc_ends placed).bind ?_
  intro kv' same
  have small' := placed.mono same
  have erased := small'.mono (kvblockGc_shape kv' i)
  simp only
  split
  · split
    · exact erased
    · split
      · exact erased
      · exact small'
  · exact small'

theorem initBlocks_ends {blockSize gcSize : Nat} (small : kv.Small)
    (fits : blockSize ≤ largestBlock) :
    Meets Stuck Kvset.Small (initBlocks blockSize left i gcSize kv) := by
  induction left generalizing i gcSize kv with
  | zero => exact small
  | succ left ih =>
    have named : (kv.setBlock i { kv.blocks i with id := i }).Small := small.setBlock i (small i)
    refine (kvblockInit_ends named fits).bind ?_
    intro kv' small'
    simp only
    split
    · exact ih small'
    · split
      · exact ih small'
      · exact ih small'

theorem iterCacheNode_meets (env : Env) (node : Kvnode) (kv : Kvset) (data : Unit) :
    Meets Stuck (fun r => SameShape kv r.2.1) (iterCacheNode env node kv data) := by
  have entered : ∀ key blockId offset, SameShape kv (kvCacheIn env kv key blockId offset).2 := by
    intro key blockId offset
    unfold kvCacheIn
    simp only
    split
    · exact ⟨rfl, fun _ => rfl, fun _ => rfl, fun _ => rfl⟩
    · split
      · exact ⟨rfl, fun _ => rfl, fun _ => rfl, fun _ => rfl⟩
      · exact .refl kv
  unfold iterCacheNode
  split
  · exact entered _ _ _
  · exact SameShape.refl kv

theorem kvIterFrom_ends {fn : Kvnode → Kvset → δ → Except Halt (Int × Kvset × δ)}
    (call : ∀ node kv data, Meets Stuck (fun r => SameShape kv r.2.1) (fn node kv data)) {ret : Int}
    {data : δ} (small : kv.Small) :
    Meets Stuck (fun r => SameShape kv r.2.1) (kvIterFrom fn left i ret kv data) := by
  induction left generalizing i ret kv data with
  | zero => exact SameShape.refl kv
  | succ left ih =>
    refine (kvblockIter_ends call small).bind ?_
    rintro ⟨ret', kv', data'⟩ same
    show Meets Stuck _ (if ret' ≠ 0 then _ else _)
    split
    · exact same
    · exact (ih (small.mono same)).mono fun _ => same.trans

theorem kvInit_meets (env : Env) (cachedSize : Nat) (flash : Mem) (blockNum : Nat) {blockSize : Nat}
    (fits : blockSize ≤ largestBlock) :
    Meets Stuck (fun _ => True) (kvInit env cachedSize flash blockNum blockSize) := by
  have start : Kvset.Small
      { flash := flash, trace := [], num := blockNum, blocks := fun _ => zeroBlock, bid := 0,
        gcBid := none, cache := [] } := fun _ => Nat.zero_le _
  unfold kvInit
  split
  · refine (initBlocks_ends start fits).bind ?_
    intro kv small
    refine (verifyFrom_ends small).bind ?_
    intro kv' same
    split
    · have small' := small.mono same
      have cached : ∀ cache, Kvset.Small { kv' with cache := cache } := fun _ => small'
      exact (kvIterFrom_ends (iterCacheNode_meets env) (cached _)).bind fun _ _ => trivial
    · trivial
  · trivial

/-- **`kv_init` comes to an end** for every content of the flash: it returns, or the assertion on
the size of a node fails. -/
theorem kvInit_ends (env : Env) (cachedSize : Nat) (flash : Mem) (blockNum blockSize : Nat)
    (fits : blockSize ≤ 32768) :
    (∀ (kv : Kvset) (block : Kvblock) (c : Nat) (node n : Kvnode), block.size = blockSize →
        kvblockSearch kv block c node = .ok (true, n) → c < n.nextOffset) ∧
      ((∃ ret kv, kvInit env cachedSize flash blockNum blockSize = .ok (ret, kv)) ∨
        kvInit env cachedSize flash blockNum blockSize = .error .assertion) := by
  constructor
  · intro kv block c node n size found
    exact (searchAt_next (size ▸ fits) found).2
  have ends := kvInit_meets env cachedSize flash blockNum fits
  cases result : kvInit env cachedSize flash blockNum blockSize with
  | ok r => exact Or.inl ⟨r.1, r.2, rfl⟩
  | error halt =>
    rw [result] at ends
    exact Or.inr (congrArg _ (not_not.mp ends))

theorem kvInit_ends_zeros :
    (∃ ret kv, kvInit ⟨true, fun _ => true, fun _ _ => 0⟩ 50 (fun _ => 0) 3 512 = .ok (ret, kv)) ∨
      kvInit ⟨true, fun _ => true, fun _ _ => 0⟩ 50 (fun _ => 0) 3 512 = .error .assertion :=
  (kvInit_ends ⟨true, fun _ => true, fun _ _ => 0⟩ 50 _ 3 512 (by decide)).2

end Phy6212.Kv
