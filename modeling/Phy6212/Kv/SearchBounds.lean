import Mathlib.Tactic.SplitIfs
import Phy6212.Kv.Progress

/-!
# What a search of a block reads

At every NUL `kvblock_search` looks ahead, and the only test against the size of the block is on the
NUL plus the size of the value.
-/

namespace Phy6212.Kv

open List NorFlash

def skipReads (rd : Nat → UInt8) : Nat → Nat → List Nat
  | 0, _ => []
  | bound + 1, c => c :: if rd c = 0 then skipReads rd bound (c + 1) else []

def nodeSizeOf (keySize valueSize : Nat) : Nat := align4 (keySize + valueSize + rwFlagSize + 1) + 4

def IsCandidate (rd : Nat → UInt8) (size c : Nat) : Prop :=
  rd (c + 4) = eqByte ∧ c + packedValueSize rd c < size ∧ packedKeySize rd c ≤ c

instance (rd : Nat → UInt8) (size c : Nat) : Decidable (IsCandidate rd size c) :=
  inferInstanceAs (Decidable (_ ∧ _ ∧ _))

def IsChecked (rd : Nat → UInt8) (c : Nat) : Prop :=
  rd (c + 2) = rd (c + packedValueSize rd c + rwFlagSize)

instance (rd : Nat → UInt8) (c : Nat) : Decidable (IsChecked rd c) :=
  inferInstanceAs (Decidable (_ = _))

def wordOffsets (o : Nat) : List Nat := [o, o + 1, o + 2, o + 3]

/-- The offsets that are read behind a NUL: the length fields and the `=`; for a candidate the
check byte; and for a node that is accepted its version and its erase flag. -/
def nulReads (rd : Nat → UInt8) (size c : Nat) : List Nat :=
  [c + 1, c + 2, c + 4] ++
    if IsCandidate rd size c then
      (c + packedValueSize rd c + rwFlagSize) ::
        if IsChecked rd c then
          (c + 3) :: wordOffsets (c - packedKeySize rd c +
            nodeSizeOf (packedKeySize rd c) (packedValueSize rd c) - 4)
        else []
    else []

def loopReads (rd : Nat → UInt8) (size : Nat) : Nat → Nat → Option Nat → List Nat
  | 0, _, _ => []
  | left + 1, c, delim =>
    c ::
      if rd c = 0 then
        nulReads rd size c ++
          if rwRejected rd size c then loopReads rd size left (c + 1) delim else []
      else if rd c = eqByte then loopReads rd size left (c + 1) (some c)
      else if rd c = nlByte then
        match delim with
        | some _ => []
        | none => loopReads rd size left (c + 1) none
      else if rd c = crByte then loopReads rd size left (c + 1) delim
      else loopReads rd size left (c + 1) (if isprint (rd c) then delim else none)

def searchReads (rd : Nat → UInt8) (size c : Nat) : List Nat :=
  skipReads rd (size - c) c ++
    loopReads rd size (size - 1 - searchStart rd size c) (searchStart rd size c) none

variable {rd rd' : Nat → UInt8} {size c : Nat}

theorem rwRejected_eq (rd : Nat → UInt8) (size c : Nat) :
    rwRejected rd size c = !decide (IsCandidate rd size c ∧ IsChecked rd c) := by
  unfold rwRejected IsCandidate IsChecked
  rw [← Bool.not_not (_ || _)]
  congr 1
  simp only [Bool.not_or, Bool.decide_and, ← decide_not, ne_eq, not_not, Nat.not_le, Nat.not_lt,
    Bool.and_assoc]

theorem skipZeros_reads {bound : Nat} (same : ∀ o ∈ skipReads rd bound c, rd' o = rd o) :
    skipZeros rd' bound c = skipZeros rd bound c := by
  induction bound generalizing c with
  | zero => rfl
  | succ bound ih =>
    obtain ⟨here, later⟩ := forall_mem_cons.mp same
    rw [skipZeros, skipZeros, here]
    split
    next zero =>
      rw [if_pos zero] at later
      exact ih later
    next => rfl

theorem packedValueSize_lt (rd : Nat → UInt8) (c : Nat) : packedValueSize rd c < 2 ^ 10 := by
  have byte := (rd (c + 1)).toNat_lt
  refine Nat.or_lt_two_pow (Nat.lt_trans byte (by decide)) ?_
  exact Nat.lt_of_le_of_lt Nat.and_le_right (by decide)

theorem nodeSizeOf_lt (rd : Nat → UInt8) (c : Nat) :
    nodeSizeOf (packedKeySize rd c) (packedValueSize rd c) < 65536 := by
  have key := packedKeySize_le rd c
  have value := packedValueSize_lt rd c
  have high := align4_le (packedKeySize rd c + packedValueSize rd c + rwFlagSize + 1)
  simp only [nodeSizeOf, rwFlagSize] at *
  omega

theorem nul_congr (same : ∀ o ∈ nulReads rd size c, rd' o = rd o) :
    rwRejected rd' size c = rwRejected rd size c ∧
      ∀ node, rwRejected rd size c = false → rwNode rd' c node = rwNode rd c node := by
  obtain ⟨lengths, behind⟩ := forall_mem_append.mp same
  have two := lengths (c + 2) (by simp)
  have four := lengths (c + 4) (by simp)
  have value : packedValueSize rd' c = packedValueSize rd c := by
    rw [packedValueSize, packedValueSize, lengths (c + 1) (by simp), two]
  have key : packedKeySize rd' c = packedKeySize rd c := by rw [packedKeySize, packedKeySize, two]
  have same : IsCandidate rd' size c = IsCandidate rd size c := by
    rw [IsCandidate, IsCandidate, value, key, four]
  simp only [rwRejected_eq, same]
  by_cases candidate : IsCandidate rd size c
  · rw [if_pos candidate] at behind
    obtain ⟨check, behind⟩ := forall_mem_cons.mp behind
    have same : IsChecked rd' c = IsChecked rd c := by rw [IsChecked, IsChecked, value, two, check]
    refine ⟨by simp only [same], fun node accepted => ?_⟩
    have checked : IsChecked rd c := by simpa [candidate] using accepted
    simp only [if_pos checked, wordOffsets, forall_mem_cons] at behind
    obtain ⟨version, zero, one, two, three, -⟩ := behind
    have size : u16 (align4 _ + 4) = nodeSizeOf _ _ := u16_of_lt (nodeSizeOf_lt rd c)
    simp only [rwNode, word32, value, key, version, size, zero, one, two, three]
  · simp [candidate]

theorem searchLoop_congr {left : Nat} {delim : Option Nat} {node : Kvnode}
    (same : ∀ o ∈ loopReads rd size left c delim, rd' o = rd o) :
    searchLoop rd' size left c delim node = searchLoop rd size left c delim node := by
  induction left generalizing c delim with
  | zero => rfl
  | succ left ih =>
    obtain ⟨here, later⟩ := forall_mem_cons.mp same
    unfold searchLoop
    rw [here]
    by_cases zero : rd c = 0
    · rw [if_pos zero] at later ⊢
      obtain ⟨behind, later⟩ := forall_mem_append.mp later
      rw [if_pos zero, (nul_congr behind).1]
      split_ifs at later ⊢ with rejected
      · exact ih later
      · rw [(nul_congr behind).2 node (Bool.eq_false_iff.mpr rejected)]
    · rw [if_neg zero] at later ⊢
      rw [if_neg zero]
      split_ifs at later ⊢
      · exact ih later
      · cases delim with
        | none => exact ih later
        | some d => rfl
      all_goals exact ih later

/-- The NUL bytes to which the second loop of `kvblock_search` comes. -/
def nulsFrom (rd : Nat → UInt8) (size : Nat) : Nat → Nat → Option Nat → List Nat
  | 0, _, _ => []
  | left + 1, c, delim =>
    if rd c = 0 then
      c :: if rwRejected rd size c then nulsFrom rd size left (c + 1) delim else []
    else if rd c = eqByte then nulsFrom rd size left (c + 1) (some c)
    else if rd c = nlByte then
      match delim with
      | some _ => []
      | none => nulsFrom rd size left (c + 1) none
    else if rd c = crByte then nulsFrom rd size left (c + 1) delim
    else nulsFrom rd size left (c + 1) (if isprint (rd c) then delim else none)

def searchedNuls (rd : Nat → UInt8) (size c : Nat) : List Nat :=
  nulsFrom rd size (size - 1 - searchStart rd size c) (searchStart rd size c) none

/-- What stands behind a NUL is inside the block: its header; for a candidate the check byte; and
for a node that is accepted all of the node. -/
def NulFits (rd : Nat → UInt8) (size c : Nat) : Prop :=
  c + 4 < size ∧
    (IsCandidate rd size c → c + packedValueSize rd c + rwFlagSize < size ∧
      (IsChecked rd c → c - packedKeySize rd c +
        nodeSizeOf (packedKeySize rd c) (packedValueSize rd c) ≤ size))

instance (rd : Nat → UInt8) (size c : Nat) : Decidable (NulFits rd size c) :=
  inferInstanceAs (Decidable (_ ∧ (_ → _ ∧ (_ → _))))

def Kvnode.Inside (size : Nat) (n : Kvnode) : Prop :=
  n.headOffset < n.valueOffset ∧ n.valueOffset + n.valSize ≤ size ∧ n.nextOffset ≤ size

theorem skipReads_lt {bound : Nat} (fits : c + bound ≤ size) :
    ∀ o ∈ skipReads rd bound c, o < size := by
  induction bound generalizing c with
  | zero => exact fun o mem => absurd mem not_mem_nil
  | succ bound ih =>
    rw [skipReads, forall_mem_cons]
    refine ⟨by omega, ?_⟩
    split
    · exact ih (by omega)
    · exact fun o mem => absurd mem not_mem_nil

theorem nulReads_lt_iff : (∀ o ∈ nulReads rd size c, o < size) ↔ NulFits rd size c := by
  unfold nulReads NulFits
  by_cases candidate : IsCandidate rd size c
  · by_cases checked : IsChecked rd c
    · simp only [candidate, checked, wordOffsets, if_true, forall_mem_append,
        forall_mem_cons, forall_const]
      simp only [not_mem_nil, false_implies, implies_true, and_true]
      omega
    simp only [candidate, checked, if_true, if_false, forall_mem_append,
      forall_mem_cons, forall_const, false_implies]
    simp only [not_mem_nil, false_implies, implies_true, and_true]
    omega
  · simp only [candidate, if_false, append_nil, forall_mem_cons, false_implies]
    simp only [not_mem_nil, false_implies, implies_true, and_true]
    omega

variable {node : Kvnode} {delim : Option Nat}

theorem loopReads_lt_iff {left : Nat} (fits : c + left < size) :
    (∀ o ∈ loopReads rd size left c delim, o < size) ↔
      ∀ e ∈ nulsFrom rd size left c delim, NulFits rd size e := by
  induction left generalizing c delim with
  | zero => simp [loopReads, nulsFrom]
  | succ left ih =>
    have here : c < size := by omega
    have rest : ∀ delim, (∀ o ∈ loopReads rd size left _ delim, o < size) ↔
        ∀ e ∈ nulsFrom rd size left (c + 1) delim, NulFits rd size e :=
      fun _ => ih (by omega)
    unfold loopReads nulsFrom
    rw [forall_mem_cons, and_iff_right here]
    split
    next =>
      rw [forall_mem_append, nulReads_lt_iff, forall_mem_cons]
      refine and_congr_right fun _ => ?_
      split
      · exact rest _
      · simp
    split
    · exact rest _
    split
    · cases delim with
      | none => exact rest _
      | some d => simp
    · split
      · exact rest _
      · exact rest _

theorem rwNode_inside {e : Nat} (width : size < 65536) (accepted : rwRejected rd size e = false)
    (fits : NulFits rd size e) (node : Kvnode) : (rwNode rd e node).Inside size := by
  obtain ⟨candidate, checked⟩ : IsCandidate rd size e ∧ IsChecked rd e := by
    rw [rwRejected_eq] at accepted
    simpa using accepted
  obtain ⟨value, whole⟩ := fits.2 candidate
  have whole := whole checked
  have header : rwFlagSize = 5 := rfl
  have sized : u16 (align4 _ + 4) = nodeSizeOf _ _ := u16_of_lt (nodeSizeOf_lt rd e)
  simp only [Kvnode.Inside, rwNode, sized]
  rw [u16_of_lt (show e - packedKeySize rd e < 65536 by omega),
    u16_of_lt (show e + rwFlagSize < 65536 by omega),
    u16_of_lt (show e - packedKeySize rd e +
      nodeSizeOf _ _ < 65536 by omega)]
  omega

theorem roNode_inside {start d e : Nat} (width : size < 65536) (head : node.headOffset = start)
    (low : start ≤ d) (delimited : d < e) (high : e + 1 < size) :
    (roNode d e node).Inside size := by
  simp only [Kvnode.Inside, roNode, u16, head]
  omega

theorem searchLoop_inside {start left : Nat} {n : Kvnode} (width : size < 65536)
    (head : node.headOffset = start) (low : start ≤ c) (fits : c + left < size)
    (delimited : ∀ d ∈ delim, start ≤ d ∧ d < c)
    (nuls : ∀ e ∈ nulsFrom rd size left c delim, NulFits rd size e)
    (found : searchLoop rd size left c delim node = .ok (true, n)) : n.Inside size := by
  induction left generalizing c delim with
  | zero => cases found
  | succ left ih =>
    have onward : ∀ delim, (∀ d ∈ delim, start ≤ d ∧ d < c + 1) →
        (∀ e ∈ nulsFrom rd size left _ delim, NulFits rd size e) →
        searchLoop rd size left _ delim node = .ok (true, n) → n.Inside size :=
      fun delim => ih (Nat.le_succ_of_le low) (by omega)
    have earlier : ∀ d ∈ delim, start ≤ d ∧ d < c + 1 := fun d mem =>
      ⟨(delimited d mem).1, Nat.lt_succ_of_lt (delimited d mem).2⟩
    unfold nulsFrom at nuls
    unfold searchLoop at found
    split at found
    next zero =>
      rw [if_pos zero, forall_mem_cons] at nuls
      split at found
      next rejected =>
        rw [if_pos rejected] at nuls
        exact onward delim earlier nuls.2 found
      next accepted =>
        cases assertSize_ok found
        exact rwNode_inside width (Bool.eq_false_iff.mpr accepted) nuls.1 node
    rename_i nonzero
    rw [if_neg nonzero] at nuls
    split at found
    next delimiter =>
      rw [if_pos delimiter] at nuls
      refine onward _ ?_ nuls found
      intro d mem
      cases mem
      exact ⟨low, Nat.lt_succ_self c⟩
    rename_i other
    rw [if_neg other] at nuls
    split at found
    next line =>
      rw [if_pos line] at nuls
      cases delim with
      | none => exact onward none (fun _ mem => absurd mem (by simp)) nuls found
      | some d =>
        cases assertSize_ok found
        obtain ⟨behind, before⟩ := delimited d rfl
        exact roNode_inside width head behind before (by omega)
    rename_i inside
    rw [if_neg inside] at nuls
    split at found
    next cr =>
      rw [if_pos cr] at nuls
      exact onward delim earlier nuls found
    rename_i plain
    rw [if_neg plain] at nuls
    refine onward _ ?_ nuls found
    split
    · exact earlier
    · exact fun _ mem => absurd mem (by simp)

theorem searchStart_room (rd : Nat → UInt8) (size c : Nat) :
    size - 1 - searchStart rd size c = 0 ∨
      searchStart rd size c + (size - 1 - searchStart rd size c) < size := by
  omega

theorem searchReads_lt_iff : (∀ o ∈ searchReads rd size c, o < size) ↔
    ∀ e ∈ searchedNuls rd size c, NulFits rd size e := by
  have skipped : ∀ o ∈ skipReads rd (size - c) c, o < size := by
    rcases Nat.le_total c size with inside | outside
    · exact skipReads_lt (by omega)
    · rw [Nat.sub_eq_zero_of_le outside]
      exact fun o mem => absurd mem not_mem_nil
  rw [searchReads, forall_mem_append, and_iff_right skipped, searchedNuls]
  rcases searchStart_room rd size c with nothing | room
  · rw [nothing]
    simp [loopReads, nulsFrom]
  · exact loopReads_lt_iff room

theorem searchAt_inside {id : Nat} {n : Kvnode} (width : size < 65536)
    (nuls : ∀ e ∈ searchedNuls rd size c, NulFits rd size e)
    (found : searchAt rd size id c node = .ok (true, n)) : n.Inside size := by
  unfold searchAt at found
  rcases searchStart_room rd size c with nothing | room
  · rw [nothing] at found
    cases found
  · have small : searchStart rd size c < 65536 := by omega
    exact searchLoop_inside width (u16_of_lt small) (Nat.le_refl _) room
      (fun _ mem => absurd mem (by simp)) nuls found

/-- **When a search stays inside its block:** all that it reads and the node that it returns are
inside the block exactly if at every NUL to which it comes the header, the check byte of a candidate
and all of a node that is accepted are. -/
theorem search_inside_iff (kv : Kvset) (block : Kvblock) (width : block.size < 65536) (c : Nat)
    (node : Kvnode) :
    ((∀ o ∈ searchReads (kv.read block) block.size c, o < block.size) ∧
        ∀ n, kvblockSearch kv block c node = .ok (true, n) → n.Inside block.size) ↔
      ∀ e ∈ searchedNuls (kv.read block) block.size c, NulFits (kv.read block) block.size e := by
  constructor
  · intro inside
    exact searchReads_lt_iff.mp inside.1
  · intro nuls
    exact ⟨searchReads_lt_iff.mpr nuls, fun n found => searchAt_inside width nuls found⟩

def firstBlock : Kvblock := { zeroBlock with size := 512 }

def rawStore (flash : Mem) : Kvset where
  flash := flash
  trace := []
  num := 1
  blocks _ := firstBlock
  bid := 0
  gcBid := none
  cache := []

/-- The line `a=1` in an erased block. -/
theorem search_inside_iff_line :
    firstBlock.size < 65536 ∧
      ∀ n, kvblockSearch (rawStore fun a => [0x61, eqByte, 0x31, nlByte].getD a blank) firstBlock 0 {} =
        .ok (true, n) → n.Inside 512 := by
  have width : firstBlock.size < 65536 := by decide
  refine ⟨width, ((search_inside_iff _ firstBlock width 0 {}).mpr ?_).2⟩
  decide +kernel

/-- **A search depends on nothing but what it reads**: stores that agree there lead to the same
node. -/
theorem kvblockSearch_reads {kv kv' : Kvset} {block : Kvblock} {c : Nat}
    (same : ∀ o ∈ searchReads (kv.read block) block.size c, kv'.read block o = kv.read block o)
    (node : Kvnode) : kvblockSearch kv' block c node = kvblockSearch kv block c node := by
  obtain ⟨skipped, looped⟩ := forall_mem_append.mp same
  rw [kvblockSearch, kvblockSearch, skipZeros_reads skipped]
  exact searchLoop_congr looped

theorem kvblockSearch_reads_line :
    kvblockSearch (rawStore fun a => [0x61, eqByte, 0x31, nlByte].getD a 0) firstBlock 0 {} =
      kvblockSearch (rawStore fun a => [0x61, eqByte, 0x31, nlByte].getD a blank) firstBlock 0 {} :=
  kvblockSearch_reads (by decide +kernel) {}

/-- The last bytes of the block are a NUL, a header and an `=`. -/
def edgeNode : Mem := fun a =>
  if a = 506 then 0 else if a = 507 then 3 else if a = 508 ∨ a = 514 then 4
  else if a = 510 then eqByte else 1

/-- **A search leaves its block**, and the value of the node that it returns ends behind it. -/
theorem search_leaves_block :
    (∃ o ∈ searchReads ((rawStore edgeNode).read firstBlock) 512 0, 512 ≤ o) ∧
      ∃ n, kvblockSearch (rawStore edgeNode) firstBlock 0 {} = .ok (true, n) ∧
        n.valueOffset + n.valSize = 514 ∧ n.nextOffset = 521 ∧ ¬ n.Inside 512 := by
  refine ⟨⟨514, by decide +kernel, by decide⟩, ?_⟩
  have found : (kvblockSearch (rawStore edgeNode) firstBlock 0 {}).toOption.map
      (fun r => (r.1, r.2.valueOffset + r.2.valSize, r.2.nextOffset)) = some (true, 514, 521) := by
    decide +kernel
  obtain ⟨⟨found, n⟩, ok, fields⟩ := Option.map_eq_some_iff.mp found
  obtain ⟨rfl, value, next⟩ : found = true ∧ n.valueOffset + n.valSize = 514 ∧
      n.nextOffset = 521 := by simpa using fields
  refine ⟨n, Runs.ok_of_toOption ok, value, next, ?_⟩
  rintro ⟨-, -, inside⟩
  omega

end Phy6212.Kv
