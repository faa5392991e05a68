import Phy6212.Kv.Session
import Phy6212.Runs.Reach

/-!
# Reading a value into a buffer

The value of a node is the bytes of a read-write node, the text between the quotes of a read-only
string, or the four bytes of a read-only number (`storedValue`).
-/

namespace Phy6212.Kv

open List NorFlash

def kvGetdata (handle : Int) (kv : Kvset) (key : List UInt8) (bufsize : Int) :
    Except Halt (Int × List UInt8) :=
  if handle < 0 then .ok (-1, [])
  else if bufsize ≤ 0 then .ok (-1, [])
  else kvGet kv key bufsize.toNat

/-- `aos_kv_get`: the return value, the bytes copied and the new `*buffer_len`. -/
def aosKvGet (handle : Int) (kv : Kvset) (key : List UInt8) (bufferLen : Int) :
    Except Halt (Int × List UInt8 × Int) := do
  let (ret, copied) ← kvGetdata handle kv key bufferLen
  .ok (if ret ≤ 0 then -1 else 0, copied, if 0 < ret then ret else bufferLen)

def stripLast (byte : UInt8) (text : List UInt8) : List UInt8 :=
  if text.getLast? = some byte then text.dropLast else text

/-- The text between the quotes of a read-only string. -/
def betweenQuotes (text : List UInt8) : List UInt8 :=
  (stripLast quoteByte (stripLast crByte text)).drop 1

/-- The value of a node, or nothing for a read-only entry without text. -/
def storedValue (kv : Kvset) (node : Kvnode) : Option (List UInt8) :=
  let text := readBytes (kv.valueOf node) 0 node.valSize
  if node.rw then some text
  else if text = [] then none
  else if text.head? = some quoteByte then some (betweenQuotes text)
  else some (intBytes (atoi (kv.valueOf node) (kv.num * (kv.blocks 0).size) 0))

variable {rd : Nat → UInt8}

theorem length_readBytes (offset count : Nat) : (readBytes rd offset count).length = count := by
  simp [readBytes]

theorem take_readBytes (offset count n : Nat) :
    (readBytes rd offset count).take n = readBytes rd offset (min count n) := by
  simp [readBytes, ← map_take, take_range, Nat.min_comm]

theorem drop_readBytes (count : Nat) :
    (readBytes rd 0 (count + 1)).drop 1 = readBytes rd 1 count := by
  unfold readBytes
  rw [range_succ_eq_map, map_cons, drop_one, tail_cons, map_map]
  apply map_congr_left
  intro i _
  simp [Nat.add_comm]

theorem readBytes_succ (offset count : Nat) :
    readBytes rd offset (count + 1) = readBytes rd offset count ++ [rd (offset + count)] := by
  simp [readBytes, range_succ]

theorem stripLast_readBytes (byte : UInt8) (count : Nat) :
    stripLast byte (readBytes rd 0 (count + 1))
      = readBytes rd 0 (if rd count = byte then count else count + 1) := by
  unfold stripLast
  rw [readBytes_succ, Nat.zero_add, getLast?_concat, dropLast_concat]
  by_cases same : rd count = byte
  · rw [if_pos (congrArg some same), if_pos same]
  · rw [if_neg (fun equal => same (Option.some.inj equal)), if_neg same, readBytes_succ,
      Nat.zero_add]

theorem quotedSize_eq {valSize : Nat} (nonempty : 0 < valSize) (quoted : rd 0 = quoteByte) :
    betweenQuotes (readBytes rd 0 valSize)
        = readBytes rd 1 (quotedSize rd valSize).toNat ∧
      (quotedSize rd valSize < 0 → betweenQuotes (readBytes rd 0 valSize) = []) := by
  obtain ⟨count, rfl⟩ := Nat.exists_eq_succ_of_ne_zero (Nat.ne_of_gt nonempty)
  unfold betweenQuotes quotedSize
  rw [Nat.succ_eq_add_one, Nat.add_sub_cancel, stripLast_readBytes]
  generalize within : (if rd count = crByte then count else count + 1) = ret
  -- the carriage return is not the opening quote
  have positive : 0 < ret := by
    split at within
    · next isCr =>
      rcases Nat.eq_zero_or_pos count with rfl | some
      · rw [quoted] at isCr
        exact absurd isCr (by decide)
      · omega
    · omega
  obtain ⟨last, rfl⟩ := Nat.exists_eq_succ_of_ne_zero (Nat.ne_of_gt positive)
  simp only [Nat.succ_eq_add_one, Nat.add_sub_cancel]
  rw [stripLast_readBytes]
  generalize (if rd last = quoteByte then last else last + 1) = length
  cases length with
  | zero => exact ⟨rfl, fun _ => rfl⟩
  | succ length =>
    rw [drop_readBytes]
    constructor
    · congr 1
      omega
    · intro negative
      omega

theorem kvGet_value {kv : Kvset} {key : List UInt8} {node : Kvnode} {value : List UInt8}
    (found : kvFind kv key {} = .ok (true, node)) (stored : storedValue kv node = some value)
    (nonempty : value ≠ []) (size : Nat) :
    kvGet kv key size = .ok (value.length, value.take size) := by
  unfold kvGet
  rw [found]
  simp only [bind, Except.bind, if_true]
  unfold storedValue at stored
  cases rw_ : node.rw with
  | true =>
    simp only [rw_, if_true, Option.some.injEq] at stored ⊢
    subst stored
    rw [length_readBytes, take_readBytes]
  | false =>
    simp only [rw_, Bool.false_eq_true, if_false] at stored ⊢
    split at stored
    · cases stored
    rename_i hasText
    have positive : 0 < node.valSize := by
      rcases Nat.eq_zero_or_pos node.valSize with none | some
      · exact absurd (by rw [none]; rfl) hasText
      · exact some
    have head : (readBytes (kv.valueOf node) 0 node.valSize).head?
        = some (kv.valueOf node 0) := by
      obtain ⟨count, valSize⟩ := Nat.exists_eq_succ_of_ne_zero (Nat.ne_of_gt positive)
      rw [valSize, Nat.succ_eq_add_one, readBytes, range_succ_eq_map]
      rfl
    rw [if_pos positive]
    rw [head] at stored
    split at stored
    · next quote =>
      have quoted := Option.some.inj quote
      rw [Option.some.injEq] at stored
      obtain ⟨text, empty⟩ := quotedSize_eq positive quoted
      have notNegative : ¬ quotedSize (kv.valueOf node) node.valSize < 0 := by
        intro negative
        exact nonempty (stored ▸ empty negative)
      rw [if_pos quoted, if_neg notNegative, ← stored, text, length_readBytes,
        take_readBytes, Int.toNat_of_nonneg (by omega)]
    · next number =>
      rw [Option.some.injEq] at stored
      rw [if_neg (fun quoted => number (congrArg some quoted)), ← stored]
      rfl

/-- **`aos_kv_get` copies a value as far as the buffer goes and reports its real length.** -/
theorem aosKvGet_value {handle : Int} {kv : Kvset} {key : List UInt8} {node : Kvnode}
    {value : List UInt8} {bufferLen : Int} (opened : 0 ≤ handle)
    (found : kvFind kv key {} = .ok (true, node)) (stored : storedValue kv node = some value)
    (nonempty : value ≠ []) (positive : 0 < bufferLen) :
    aosKvGet handle kv key bufferLen = .ok (0, value.take bufferLen.toNat, value.length) := by
  have length : 0 < (value.length : Int) := by
    have := length_pos_of_ne_nil nonempty
    omega
  unfold aosKvGet kvGetdata
  rw [if_neg (by omega), if_neg (by omega), kvGet_value found stored nonempty]
  simp only [bind, Except.bind]
  rw [if_neg (by omega), if_pos length]

def afterSet (key value : List UInt8) : Except Halt Kvset := do
  let (_, kv) ← kvInit plenty 50 (fun _ => blank) twoBlocks.num twoBlocks.size
  let (_, kv) ← kvSet plenty kv key value
  .ok kv

theorem aosKvGet_value_cut :
    ∃ kv node, afterSet [0x61] [1, 2] = .ok kv ∧ kvFind kv [0x61] {} = .ok (true, node) ∧
      storedValue kv node = some [1, 2] ∧ aosKvGet 0 kv [0x61] 1 = .ok (0, [1], 2) := by
  have result : ((afterSet [0x61] [1, 2]).toOption.bind fun kv =>
      (kvFind kv [0x61] {}).toOption.map fun found =>
        (found.1, storedValue kv found.2)) = some (true, some [1, 2]) := by
    decide +kernel
  obtain ⟨kv, set, rest⟩ := Option.bind_eq_some_iff.mp result
  obtain ⟨⟨isFound, node⟩, find, same⟩ := Option.map_eq_some_iff.mp rest
  obtain ⟨rfl, stored⟩ := Prod.mk.inj same
  have found := Runs.ok_of_toOption find
  exact ⟨kv, node, Runs.ok_of_toOption set, found, stored,
    aosKvGet_value (by decide) found stored (by decide) (by decide)⟩

/-- The length reported exceeds the buffer, which holds one byte of the value. -/
theorem length_exceeds_buffer :
    ∃ kv node copied len, afterSet [0x61] [1, 2] = .ok kv ∧
      kvFind kv [0x61] {} = .ok (true, node) ∧
      aosKvGet 0 kv [0x61] 1 = .ok (0, copied, len) ∧
      ¬ (len = copied.length ∧ len ≤ 1) := by
  have result : ((afterSet [0x61] [1, 2]).toOption.bind fun kv =>
      (kvFind kv [0x61] {}).toOption.bind fun found =>
        (aosKvGet 0 kv [0x61] 1).toOption.map fun got => (found.1, got))
      = some (true, 0, [1], 2) := by
    decide +kernel
  obtain ⟨kv, set, rest⟩ := Option.bind_eq_some_iff.mp result
  obtain ⟨⟨isFound, node⟩, find, rest⟩ := Option.bind_eq_some_iff.mp rest
  obtain ⟨got, read, same⟩ := Option.map_eq_some_iff.mp rest
  obtain ⟨rfl, rfl⟩ := Prod.mk.inj same
  exact ⟨kv, node, [1], 2, Runs.ok_of_toOption set, Runs.ok_of_toOption find,
    Runs.ok_of_toOption read, by decide⟩

end Phy6212.Kv
