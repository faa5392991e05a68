import Mathlib.Algebra.GroupWithZero.Nat
import Phy6212.Kv.Store

/-!
# A block as a log of entries

A block is a log of entries with a key, a value and a version, some of them dead (`HoldsLog`,
`Blank`).
-/

namespace Phy6212.Kv

open NorFlash

/-- Whether a search reads a line to its end in the bytes. -/
def endsLine : Bool → List UInt8 → Bool
  | _, [] => false
  | delim, b :: bytes =>
    if b = eqByte then endsLine true bytes
    else if b = nlByte then delim || endsLine false bytes
    else if b = crByte then endsLine delim bytes
    else endsLine (delim && isprint b) bytes

/-- A key of the store: 1 to 63 bytes without NUL that do not read as a line. -/
structure Key where
  bytes : List UInt8
  nonempty : 0 < bytes.length
  short : bytes.length ≤ 63
  nonzero : ∀ b ∈ bytes, b ≠ 0
  noLine : endsLine false bytes = false
  deriving DecidableEq, Repr

structure Entry where
  key : Key
  value : List UInt8
  version : UInt8
  live : Bool
  fits : value.length < 1024
  deriving DecidableEq, Repr

namespace Entry

def size (e : Entry) : Nat :=
  align4 (e.key.bytes.length + e.value.length + rwFlagSize + 1) + 4

def nul (e : Entry) (o : Nat) : Nat := o + e.key.bytes.length

def kill (e : Entry) : Entry := { e with live := false }

def mark (e : Entry) : UInt8 := if e.live then 0xFF else 0

def node (e : Entry) (b o : Nat) : Kvnode where
  rw := true
  version := e.version
  valSize := e.value.length
  eraseFlag := if e.live then 0xFFFFFFFF else 0
  headOffset := o
  valueOffset := o + e.key.bytes.length + rwFlagSize
  nextOffset := o + e.size
  nodeSize := e.size
  block := some b

end Entry

theorem align4_spec (x : Nat) : x ≤ align4 x ∧ align4 x ≤ x + 3 ∧ align4 x % 4 = 0 := by
  unfold align4
  split <;> omega

variable (e : Entry)

theorem Entry.size_bounds :
    e.key.bytes.length + e.value.length + 10 ≤ e.size ∧ e.size ≤ 1100 ∧ e.size % 4 = 0 := by
  have aligned := align4_spec (e.key.bytes.length + e.value.length + rwFlagSize + 1)
  have fits := e.fits
  have short := e.key.short
  unfold Entry.size
  simp only [rwFlagSize] at *
  omega

@[simp] theorem Entry.kill_size : e.kill.size = e.size := rfl
@[simp] theorem Entry.kill_live : e.kill.live = false := rfl

theorem u16_of_lt {n : Nat} (h : n < 65536) : u16 n = n := Nat.mod_eq_of_lt h

structure BodyAt (rd : Nat → UInt8) (o : Nat) (e : Entry) : Prop where
  key : ∀ i (h : i < e.key.bytes.length), rd (o + i) = e.key.bytes[i]
  nul : rd (e.nul o) = 0
  lo : rd (e.nul o + 1) = sizeLo e.value.length
  hi : rd (e.nul o + 2) = sizeHi e.key.bytes.length e.value.length
  version : rd (e.nul o + 3) = e.version
  delim : rd (e.nul o + 4) = eqByte
  value : ∀ i (h : i < e.value.length), rd (e.nul o + 5 + i) = e.value[i]
  tail : rd (e.nul o + 5 + e.value.length) = sizeHi e.key.bytes.length e.value.length

/-- The bytes from offset `o` on are the node of an entry with its erase flag. -/
structure StoredAt (rd : Nat → UInt8) (o : Nat) (e : Entry) : Prop extends BodyAt rd o e where
  mark : ∀ i < 4, rd (o + e.size - 4 + i) = e.mark

variable {rd rd' : Nat → UInt8} {o : Nat} {e : Entry}

theorem BodyAt.congr (body : BodyAt rd o e)
    (same : ∀ i, o ≤ i → i < o + e.size - 4 → rd' i = rd i) : BodyAt rd' o e := by
  have bounds := e.size_bounds
  have agree : ∀ i, o ≤ i → i < o + e.size - 4 → ∀ b, rd i = b → rd' i = b := by
    intro i low high b equal
    rw [same i low high, equal]
  have unfolded : e.nul o = o + e.key.bytes.length := rfl
  constructor
  · intro i h
    exact agree _ (by omega) (by omega) _ (body.key i h)
  · exact agree _ (by omega) (by omega) _ body.nul
  · exact agree _ (by omega) (by omega) _ body.lo
  · exact agree _ (by omega) (by omega) _ body.hi
  · exact agree _ (by omega) (by omega) _ body.version
  · exact agree _ (by omega) (by omega) _ body.delim
  · intro i h
    exact agree _ (by omega) (by omega) _ (body.value i h)
  · exact agree _ (by omega) (by omega) _ body.tail

theorem StoredAt.congr (stored : StoredAt rd o e)
    (same : ∀ i, o ≤ i → i < o + e.size → rd' i = rd i) : StoredAt rd' o e := by
  have bounds := e.size_bounds
  refine ⟨stored.toBodyAt.congr fun i low high => same i low (by omega), fun i h => ?_⟩
  rw [same _ (by omega) (by omega), stored.mark i h]

theorem StoredAt.kill (stored : StoredAt rd o e)
    (same : ∀ i, o ≤ i → i < o + e.size - 4 → rd' i = rd i)
    (cleared : ∀ i < 4, rd' (o + e.size - 4 + i) = 0) : StoredAt rd' o e.kill := by
  obtain ⟨key, nul, lo, hi, version, delim, value, tail⟩ := stored.toBodyAt.congr same
  exact ⟨⟨key, nul, lo, hi, version, delim, value, tail⟩, cleared⟩

theorem sizeLo_toNat (size : Nat) : (sizeLo size).toNat = size % 256 := by
  have masked : size &&& 0xFF = size % 256 := Nat.and_two_pow_sub_one_eq_mod size 8
  simp [sizeLo, masked]

theorem sizeHi_toNat {len size : Nat} (short : len ≤ 63) (small : size < 1024) :
    (sizeHi len size).toNat = 4 * len + size / 256 := by
  have masked : (size >>> 8) &&& 0xFF = size / 256 := by
    rw [Nat.shiftRight_eq_div_pow, show 0xFF = 2 ^ 8 - 1 from rfl, Nat.and_two_pow_sub_one_eq_mod]
    omega
  have joined : size / 256 ||| len <<< 2 = 4 * len + size / 256 := by
    rw [Nat.or_comm, ← Nat.shiftLeft_add_eq_or_of_lt (by omega), Nat.shiftLeft_eq]
    omega
  unfold sizeHi
  rw [masked, joined]
  simp only [UInt8.toNat_ofNat']
  omega

section

variable (stored : StoredAt rd o e)

include stored

theorem StoredAt.keySize : packedKeySize rd (e.nul o) = e.key.bytes.length := by
  have fits := e.fits
  unfold packedKeySize
  rw [stored.hi, sizeHi_toNat e.key.short (by omega), Nat.shiftRight_eq_div_pow]
  omega

theorem StoredAt.valueSize : packedValueSize rd (e.nul o) = e.value.length := by
  have fits := e.fits
  have masked (n : Nat) : (n <<< 8) &&& 0x3FF = (n % 4) <<< 8 := by
    rw [show 0x3FF = 2 ^ 10 - 1 from rfl, Nat.and_two_pow_sub_one_eq_mod,
      Nat.shiftLeft_eq, Nat.shiftLeft_eq]
    omega
  unfold packedValueSize
  rw [stored.lo, stored.hi, sizeLo_toNat, sizeHi_toNat e.key.short (by omega), masked,
    Nat.or_comm, ← Nat.shiftLeft_add_eq_or_of_lt (by omega), Nat.shiftLeft_eq]
  omega

theorem StoredAt.not_rejected {size : Nat}
    (room : o + e.size ≤ size) : rwRejected rd size (e.nul o) = false := by
  have bounds := e.size_bounds
  have unfolded : e.nul o = o + e.key.bytes.length := rfl
  simp only [rwRejected, stored.valueSize, stored.keySize, stored.delim, stored.hi,
    Bool.or_eq_false_iff, decide_eq_false_iff_not, not_not, Nat.not_le, Nat.not_lt]
  refine ⟨⟨⟨trivial, by omega⟩, by omega⟩, ?_⟩
  rw [show e.nul o + e.value.length + rwFlagSize = e.nul o + 5 + e.value.length by
    simp only [rwFlagSize]; omega, stored.tail]

theorem StoredAt.eraseFlag : word32 rd (o + e.size - 4) = if e.live then 0xFFFFFFFF else 0 := by
  have first := stored.mark 0 (by omega)
  rw [Nat.add_zero] at first
  unfold word32
  rw [first, stored.mark 1 (by omega), stored.mark 2 (by omega), stored.mark 3 (by omega)]
  unfold Entry.mark
  cases e.live <;> rfl

theorem StoredAt.rwNode_eq (room : o + e.size < 65536)
    (node : Kvnode) {b : Nat} (named : node.block = some b) :
    rwNode rd (e.nul o) node = e.node b o := by
  have bounds := e.size_bounds
  have back : e.nul o - e.key.bytes.length = o := Nat.add_sub_cancel ..
  have total : align4 _ + 4 = e.size := rfl
  have unfolded : e.nul o = o + e.key.bytes.length := rfl
  unfold rwNode
  simp only [stored.keySize, stored.valueSize, back, total, stored.version]
  rw [u16_of_lt (n := e.size) (by omega), u16_of_lt (n := o) (by omega), stored.eraseFlag,
    u16_of_lt (by simp only [rwFlagSize]; omega), u16_of_lt (by omega), unfolded]
  simp only [Entry.node, named]

end

theorem searchLoop_key (size : Nat) (stored : StoredAt rd o e) (node : Kvnode) :
    ∀ (todo left i : Nat) (delim : Option Nat), i + todo = e.key.bytes.length →
      endsLine delim.isSome (e.key.bytes.drop i) = false →
      ∃ delim', searchLoop rd size (left + todo) (o + i) delim node =
        searchLoop rd size left (e.nul o) delim' node
  | 0, left, i, delim, done, _ => by
    rw [Nat.add_zero] at done
    rw [done, Nat.add_zero]
    exact ⟨delim, rfl⟩
  | todo + 1, left, i, delim, ahead, noLine => by
    have within : i < e.key.bytes.length := by omega
    have byte := stored.key i within
    have notNul := e.key.nonzero _ (List.getElem_mem within)
    have next (delim' : Option Nat) := searchLoop_key size stored node todo left (i + 1) delim'
      (by omega)
    rw [List.drop_eq_getElem_cons within, endsLine] at noLine
    rw [← Nat.add_assoc, searchLoop.eq_def]
    dsimp only
    rw [byte, if_neg notNul, Nat.add_assoc]
    split
    · next isEq =>
      rw [if_pos isEq] at noLine
      exact next _ noLine
    rename_i notEq
    rw [if_neg notEq] at noLine
    split
    · next isNl =>
      rw [if_pos isNl, Bool.or_eq_false_iff] at noLine
      cases delim with
      | some d => exact absurd noLine.1 Bool.noConfusion
      | none => exact next none noLine.2
    · next notNl =>
      rw [if_neg notNl] at noLine
      split
      · next isCr =>
        rw [if_pos isCr] at noLine
        exact next delim noLine
      · next notCr =>
        rw [if_neg notCr] at noLine
        apply next
        cases printed : isprint e.key.bytes[i] <;> simpa [printed] using noLine

theorem skipZeros_of_ne {bound c : Nat} (h : rd c ≠ 0) : skipZeros rd bound c = c := by
  cases bound with
  | zero => rfl
  | succ bound => rw [skipZeros, if_neg h]

theorem search_entry {kv : Kvset} {block : Kvblock} (stored : StoredAt (kv.read block) o e)
    (room : o + e.size + 4 ≤ block.size) (small : block.size < 65536) (node : Kvnode) :
    kvblockSearch kv block o node = .ok (true, e.node block.id o) := by
  have bounds := e.size_bounds
  have positive := e.key.nonempty
  have first : kv.read block o ≠ 0 := by
    have byte := stored.key 0 positive
    rw [Nat.add_zero] at byte
    rw [byte]
    exact e.key.nonzero _ (List.getElem_mem positive)
  unfold kvblockSearch
  simp only [skipZeros_of_ne first]
  obtain ⟨left, split⟩ : ∃ left, block.size - 1 - o = left + 1 + e.key.bytes.length :=
    ⟨block.size - 1 - o - 1 - e.key.bytes.length, by omega⟩
  obtain ⟨delim, walk⟩ := searchLoop_key block.size stored
    { node with block := some block.id, headOffset := u16 o } e.key.bytes.length _ 0 none
    (Nat.zero_add _) e.key.noLine
  simp only [Nat.add_zero] at walk
  rw [split, walk, searchLoop.eq_def]
  dsimp only
  rw [if_pos stored.nul, if_neg (by
    rw [stored.not_rejected (by omega)]; exact Bool.false_ne_true),
    stored.rwNode_eq (by omega) _ rfl]
  exact if_pos (by simp only [Entry.node]; omega)

def Blank (rd : Nat → UInt8) (o size : Nat) : Prop := ∀ i, o ≤ i → i < size → rd i = blank

theorem searchLoop_blank {size : Nat} (node : Kvnode) :
    ∀ (left c : Nat), (∀ i, c ≤ i → i < c + left → rd i = blank) →
      searchLoop rd size left c none node = .ok (false, node)
  | 0, _, _ => rfl
  | left + 1, c, erased => by
    have byte : rd c = blank := erased c (Nat.le_refl _) (by omega)
    rw [searchLoop, byte, if_neg (by decide), if_neg (by decide), if_neg (by decide),
      if_neg (by decide), ite_self]
    exact searchLoop_blank node left _ fun i low high => erased i (by omega) (by omega)

theorem search_blank {kv : Kvset} {block : Kvblock} (erased : Blank (kv.read block) o block.size)
    (node : Kvnode) :
    kvblockSearch kv block o node =
      .ok (false, { node with block := some block.id, headOffset := u16 o }) := by
  have start : skipZeros (kv.read block) (block.size - o) o = o := by
    rcases Nat.lt_or_ge o block.size with inside | outside
    · apply skipZeros_of_ne
      rw [erased o (Nat.le_refl _) inside]
      decide
    · rw [Nat.sub_eq_zero_of_le outside]
      rfl
  unfold kvblockSearch
  simp only [start]
  exact searchLoop_blank _ _ _ fun i low high => erased i low (by omega)

def logSize (log : List Entry) : Nat := (log.map Entry.size).sum

@[simp] theorem logSize_nil : logSize [] = 0 := rfl

@[simp] theorem logSize_cons (e : Entry) (log : List Entry) :
    logSize (e :: log) = e.size + logSize log := by
  simp [logSize]

@[simp] theorem logSize_append (first second : List Entry) :
    logSize (first ++ second) = logSize first + logSize second := by
  simp [logSize]

/-- The bytes from offset `o` on are the nodes of a log, one behind the other. -/
def HoldsLog (rd : Nat → UInt8) : Nat → List Entry → Prop
  | _, [] => True
  | o, e :: log => StoredAt rd o e ∧ HoldsLog rd (o + e.size) log

theorem holdsLog_append {first second : List Entry} :
    HoldsLog rd o (first ++ second) ↔
      HoldsLog rd o first ∧ HoldsLog rd (o + logSize first) second := by
  induction first generalizing o with
  | nil => simp [HoldsLog]
  | cons e first ih =>
    simp only [List.cons_append, HoldsLog, logSize_cons, ih, and_assoc, Nat.add_assoc]

theorem HoldsLog.congr : ∀ {o : Nat} {log : List Entry},
    HoldsLog rd o log → (∀ i, o ≤ i → i < o + logSize log → rd' i = rd i) → HoldsLog rd' o log
  | _, [], _, _ => trivial
  | o, e :: log, ⟨stored, rest⟩, same => by
    rw [logSize_cons] at same
    exact ⟨stored.congr fun i low high => same i low (by omega),
      HoldsLog.congr rest fun i low high => same i (by omega) (by omega)⟩

end Phy6212.Kv
