import Mathlib.Data.List.Basic

/-!
# Advertising data

An advertising payload is a sequence of structures: a length byte, a type and the data, where the
length counts the type.
-/

namespace Phy6212.Ble

open List

/-- The first bytes of `uuid_temp`, those that `memcmp` compares. -/
def uuidTemp : List UInt8 := [0x7e, 0x31, 0x35, 0xd4, 0x12, 0xf3, 0x11, 0xe9, 0xab, 0x14]

def adDataTypeUuid128All : UInt8 := 0x07

/-- `count` bytes of the payload from an offset on, `none` if one of them lies outside. -/
def readBytes (data : List UInt8) (start count : Nat) : Option (List UInt8) :=
  if start + count ≤ data.length then some ((data.drop start).take count) else none

/-- The walk from offset `pdata` with `len` bytes to go; `none` is a read outside the payload. -/
def findUartUuidByAd (data : List UInt8) (pdata len : Nat) : Option Int :=
  if len = 0 then some (-1)
  else match data[pdata]? with
    | none => none
    | some adLen =>
      if adLen = 0 then some (-1)
      else if len < adLen.toNat + 1 then some (-1)
      else match data[pdata + 1]? with
        | none => none
        | some type =>
          if type = adDataTypeUuid128All ∧ adLen.toNat - 1 = 16 then
            match readBytes data (pdata + 2) 10 with
            | none => none
            | some bytes =>
              if bytes = uuidTemp then some 0
              else findUartUuidByAd data (pdata + (adLen.toNat + 1)) (len - (adLen.toNat + 1))
          else findUartUuidByAd data (pdata + (adLen.toNat + 1)) (len - (adLen.toNat + 1))
  termination_by len

/-- The structures of a payload, type and data, up to a zero or overlong length byte. -/
def structures : List UInt8 → List (UInt8 × List UInt8)
  | [] => []
  | adLen :: rest =>
    if adLen = 0 ∨ rest.length < adLen.toNat then []
    else (rest.headD 0, (rest.take adLen.toNat).tail) :: structures (rest.drop adLen.toNat)
  termination_by payload => payload.length
  decreasing_by simp only [length_drop, length_cons]; omega

/-- A structure that lists the service of the UART among its 128-bit UUIDs. -/
def IsUart (s : UInt8 × List UInt8) : Prop :=
  s.1 = adDataTypeUuid128All ∧ s.2.length = 16 ∧ s.2.take 10 = uuidTemp

instance : DecidablePred IsUart := fun s => by unfold IsUart; infer_instance

theorem isUart_iff {adLen : Nat} {type : UInt8} {value : List UInt8}
    (inside : adLen ≤ value.length + 1) : IsUart (type, value.take (adLen - 1)) ↔
      (type = adDataTypeUuid128All ∧ adLen - 1 = 16) ∧ value.take 10 = uuidTemp := by
  simp only [IsUart, length_take, Nat.min_eq_left (show adLen - 1 ≤ value.length by omega),
    and_assoc]
  refine and_congr_right fun _ => and_congr_right fun size => ?_
  rw [size, take_take]
  rfl

/-- The walk stays inside the payload and decides whether a structure lists the service. -/
theorem findUartUuidByAd_drop (data : List UInt8) (pdata len : Nat)
    (whole : (data.drop pdata).length = len) : findUartUuidByAd data pdata len =
      some (if ∃ s ∈ structures (data.drop pdata), IsUart s then 0 else -1) := by
  induction len using Nat.strongRecOn generalizing pdata with
  | ind len ih =>
    unfold findUartUuidByAd
    have read (k : Nat) : data[pdata + k]? = (data.drop pdata)[k]? := by simp
    have next (k : Nat) : data.drop (pdata + k) = (data.drop pdata).drop k := by simp
    have total : data.length = pdata + len ∨ len = 0 := by rw [length_drop] at whole; omega
    rw [show data[pdata]? = (data.drop pdata)[0]? from read 0, read 1]
    cases payload : data.drop pdata with
    | nil => simp [← whole, payload, structures]
    | cons adLen rest =>
      rw [payload, length_cons] at whole
      rw [if_neg (by omega), structures]
      by_cases zero : adLen = 0
      · simp [zero]
      have positive : adLen.toNat ≠ 0 := fun h => zero (UInt8.toNat_inj.mp h)
      by_cases long : rest.length < adLen.toNat
      · simp [zero, long, show len < adLen.toNat + 1 by omega]
      have later := ih (len - (adLen.toNat + 1)) (by omega) (pdata + (adLen.toNat + 1))
        (by rw [next, payload]; simp; omega)
      rw [next, payload, drop_succ_cons] at later
      obtain ⟨type, value, rfl⟩ : ∃ type value, rest = type :: value :=
        exists_cons_of_length_pos (by omega)
      obtain ⟨n, size⟩ := Nat.exists_eq_succ_of_ne_zero positive
      rw [length_cons] at whole long
      have bytes (h : adLen.toNat - 1 = 16) :
          readBytes data (pdata + 2) 10 = some (value.take 10) := by
        rw [readBytes, if_pos (by omega), next, payload]
        rfl
      simp only [getElem?_cons_zero, getElem?_cons_succ, zero, if_false, false_or,
        show ¬ len < adLen.toNat + 1 by omega, length_cons, long, later]
      rw [show ((type :: value).take adLen.toNat).tail = value.take (adLen.toNat - 1) by
        rw [size]; rfl, headD_cons]
      have either : (∃ s ∈ (type, value.take (adLen.toNat - 1)) ::
          structures ((type :: value).drop adLen.toNat), IsUart s) ↔
          ((type = adDataTypeUuid128All ∧ adLen.toNat - 1 = 16) ∧ value.take 10 = uuidTemp) ∨
            ∃ s ∈ structures ((type :: value).drop adLen.toNat), IsUart s := by
        rw [← isUart_iff (by omega)]
        simp
      by_cases kind : type = adDataTypeUuid128All ∧ adLen.toNat - 1 = 16
      · rw [if_pos kind, bytes kind.2]
        by_cases same : value.take 10 = uuidTemp
        · rw [if_pos (either.mpr (.inl ⟨kind, same⟩))]
          exact if_pos same
        · refine (if_neg same).trans (congrArg some (if_congr ?_ rfl rfl))
          rw [either, or_iff_right fun h => same h.2]
      · refine (if_neg kind).trans (congrArg some (if_congr ?_ rfl rfl))
        rw [either, or_iff_right fun h => kind h.1]

/-- For every payload the search ends without a read outside it, and it succeeds exactly when one of
the structures before a zero or overlong length byte lists the service. -/
theorem find_uart_uuid_correct (data : List UInt8) : findUartUuidByAd data 0 data.length =
    some (if ∃ s ∈ structures data, IsUart s then 0 else -1) :=
  findUartUuidByAd_drop data 0 data.length rfl

/-- A structure as `ad_data_covert` fills it; `data` is the offset of the data from the start of the
input. -/
structure AdData where
  len : Nat
  type : UInt8
  data : Nat
  deriving DecidableEq, Repr

variable (mem : Nat → UInt8)

/-- The walk from offset `pdata` with `len` bytes to go and `adNum` structures counted: the value
returned and the entries of `ad_data` from `adNum` on, none of them when the output is `NULL`. -/
def adDataCovert (fill : Bool) (pdata len adNum : Nat) : Nat × List AdData :=
  if 0 < len then
    let adLen := (mem pdata).toNat
    if adLen + 1 ≤ len then
      let rest := adDataCovert fill (pdata + (adLen + 1)) (len - (adLen + 1)) ((adNum + 1) % 256)
      (rest.1, if fill then ⟨(adLen + 255) % 256, mem (pdata + 1), pdata + 2⟩ :: rest.2 else [])
    else (0, [])
  else (adNum, [])
  termination_by len
  decreasing_by exact Nat.sub_lt ‹0 < len› (Nat.succ_pos _)

/-- The length bytes that the walk comes to. -/
def adLens (pdata len : Nat) : List Nat :=
  if 0 < len then
    (mem pdata).toNat :: adLens (pdata + ((mem pdata).toNat + 1)) (len - ((mem pdata).toNat + 1))
  else []
  termination_by len

def AdData.serialise (ad : AdData) : List UInt8 :=
  UInt8.ofNat (ad.len + 1) :: ad.type :: (range' ad.data ad.len).map mem

/-- The structures describe `len` bytes of the input: as many as are returned behind the first
`adNum`, with their data inside, and their serialisation is these bytes. -/
def Describes (pdata len adNum : Nat) (result : Nat × List AdData) : Prop :=
  result.2.length + adNum = result.1 ∧ (∀ ad ∈ result.2, ad.data + ad.len ≤ pdata + len) ∧
    result.2.flatMap (AdData.serialise mem) = (range' pdata len).map mem

variable (pdata : Nat) (len : Nat) (adNum : Nat)

theorem adDataCovert_passes_agree :
    (adDataCovert mem true pdata len adNum).1 = (adDataCovert mem false pdata len adNum).1 := by
  fun_induction adDataCovert mem true pdata len adNum with
  | case1 pdata len adNum more adLen fits rest ih =>
    rw [adDataCovert, if_pos more, if_pos fits]
    exact ih
  | case2 pdata len adNum more adLen long => rw [adDataCovert, if_pos more, if_neg long]
  | case3 pdata len adNum done => rw [adDataCovert, if_neg done]

/-- A structure of `size + 1` bytes after its length byte is the first part of what is left. -/
theorem serialise_append {pdata len size : Nat} (head : (mem pdata).toNat = size + 1)
    (fits : size + 2 ≤ len) :
    AdData.serialise mem ⟨size, mem (pdata + 1), pdata + 2⟩ ++
      (range' (pdata + (size + 2)) (len - (size + 2))).map mem =
    (range' pdata len).map mem := by
  obtain ⟨k, rfl⟩ := Nat.exists_eq_add_of_le fits
  have byte : UInt8.ofNat (size + 1) = mem pdata := by rw [← head, UInt8.ofNat_toNat]
  rw [Nat.add_sub_cancel_left, show size + 2 + k = size + k + 1 + 1 by omega, range'_succ,
    range'_succ, ← range'_append_1]
  simp [AdData.serialise, byte, Nat.add_comm, Nat.add_left_comm]

theorem adDataCovert_describes (small : adNum + len ≤ 255) (nonzero : 0 ∉ adLens mem pdata len) :
    (adDataCovert mem true pdata len adNum).1 = 0 ∨
      Describes mem pdata len adNum (adDataCovert mem true pdata len adNum) := by
  fun_induction adDataCovert mem true pdata len adNum with
  | case1 pdata len adNum more adLen fits rest ih =>
    rw [adLens, if_pos more, mem_cons, not_or] at nonzero
    obtain ⟨size, head⟩ := Nat.exists_eq_succ_of_ne_zero (Ne.symm nonzero.1)
    have byte : adLen + 255 = size + 256 ∧ size < 256 := by have := (mem pdata).toNat_lt; omega
    obtain failed | ⟨count, inside, same⟩ := ih (by omega) nonzero.2
    · exact .inl failed
    have counted : rest.2.length + (adNum + 1) % 256 = rest.1 := count
    rw [if_pos rfl, byte.1, Nat.add_mod_right, Nat.mod_eq_of_lt byte.2]
    refine .inr ⟨?_, ?_, ?_⟩
    · dsimp only [length_cons]
      omega
    · intro ad found
      rcases mem_cons.mp found with rfl | later
      · dsimp only
        omega
      · have := inside ad later
        omega
    · rw [flatMap_cons, same, ← serialise_append mem head (by omega)]
      rw [show adLen + 1 = size + 2 by omega]
  | case2 pdata len adNum more adLen long => exact .inl rfl
  | case3 pdata len adNum done =>
    obtain rfl : len = 0 := by omega
    simp [Describes]

theorem adDataCovert_zero (zero : 0 ∈ adLens mem pdata len) :
    (adDataCovert mem true pdata len adNum).1 = 0 ∨
      ∃ ad ∈ (adDataCovert mem true pdata len adNum).2, ad.len = 255 ∧ 2 ≤ ad.data := by
  fun_induction adDataCovert mem true pdata len adNum with
  | case1 pdata len adNum more adLen fits rest ih =>
    rw [adLens, if_pos more, mem_cons] at zero
    rcases zero with here | later
    · exact .inr ⟨_, mem_cons_self, by simp [adLen, ← here], by simp⟩
    · obtain failed | ⟨ad, found, is⟩ := ih later
      · exact .inl failed
      · exact .inr ⟨ad, mem_cons_of_mem _ found, is⟩
  | case2 pdata len adNum more adLen long => exact .inl rfl
  | case3 pdata len adNum done =>
    rw [adLens, if_neg done] at zero
    cases zero

end Phy6212.Ble
