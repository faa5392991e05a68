import Mathlib.Data.List.Basic

/-!
# Byte stuffing

`StuffData` puts out blocks of a code byte and at most 254 bytes that are not zero, and patches the
code later.
-/

namespace Phy6212.Voice

open Function List

/-- The local variables of `StuffData` and the memory at the destination. -/
structure Stuffer where
  mem : Nat → UInt8
  dst : Nat
  code : UInt8
  codePtr : Nat

def Stuffer.copy (s : Stuffer) (byte : UInt8) : Stuffer :=
  if byte ≠ 0 then
    { s with mem := update s.mem s.dst byte, dst := s.dst + 1, code := s.code + 1 }
  else s

def Stuffer.close (s : Stuffer) : Stuffer :=
  { mem := update s.mem s.codePtr s.code, dst := s.dst + 1, code := 1, codePtr := s.dst }

def stuffRound (s : Stuffer) (byte : UInt8) : Stuffer :=
  let s := s.copy byte
  if byte = 0 ∨ s.code = 0xFF then s.close else s

def stuffData (ptr : List UInt8) (dst : Nat → UInt8) : Nat × (Nat → UInt8) :=
  let s := ptr.foldl stuffRound { mem := dst, dst := 1, code := 1, codePtr := 0 }
  (s.dst, update s.mem s.codePtr s.code)

def bytesOf (length : Nat) (mem : Nat → UInt8) : List UInt8 :=
  (range length).map mem

/-- The loop of `UnStuffData` with the variables `code` and `copy`: what it writes for the bytes
that are left. -/
def unStuffLoop (code copy : UInt8) : List UInt8 → List UInt8
  | [] => []
  | byte :: rest =>
    if copy ≠ 0 then byte :: unStuffLoop code (copy - 1) rest
    else
      (if code ≠ 0xFF then [0] else []) ++
        if byte = 0 then [] else unStuffLoop byte (byte - 1) rest

def unStuffData (ptr : List UInt8) : List UInt8 :=
  unStuffLoop 0xFF 0 ptr

/-- What is put out for a block in progress and the rest of the input. -/
def stuffed : List UInt8 → List UInt8 → List UInt8
  | block, [] => UInt8.ofNat (block.length + 1) :: block
  | block, byte :: rest =>
    if byte = 0 then UInt8.ofNat (block.length + 1) :: block ++ stuffed [] rest
    else if block.length + 1 = 254 then 0xFF :: (block ++ [byte]) ++ stuffed [] rest
    else stuffed (block ++ [byte]) rest

def overlay (bytes : List UInt8) (mem : Nat → UInt8) (place : Nat) : UInt8 :=
  bytes.getD place (mem place)

theorem update_overlay (before : List UInt8) (hole byte : UInt8) (after : List UInt8)
    (mem : Nat → UInt8) :
    update (overlay (before ++ hole :: after) mem) before.length byte =
      overlay (before ++ byte :: after) mem := by
  funext place
  by_cases there : place = before.length
  · subst there
    simp [overlay]
  rw [update_of_ne there]
  rcases Nat.lt_or_gt_of_ne there with low | high
  · simp [overlay, getElem?_append_left low]
  · obtain ⟨more, rfl⟩ := Nat.exists_eq_add_of_lt high
    simp [overlay, Nat.add_assoc, getElem?_append_right]

variable {block : List UInt8} (mem : Nat → UInt8) (rest : List UInt8) (bytes : List UInt8)
  (done : List UInt8)

theorem overlay_hole (mem : Nat → UInt8) :
    overlay bytes mem = overlay (bytes ++ [mem bytes.length]) mem := by
  funext place
  rcases Nat.lt_trichotomy place bytes.length with low | there | high
  · simp [overlay, getElem?_append_left low]
  · subst there
    simp [overlay]
  · obtain ⟨more, rfl⟩ := Nat.exists_eq_add_of_lt high
    simp [overlay, Nat.add_assoc]

theorem update_overlay_end (byte : UInt8) (mem : Nat → UInt8) :
    update (overlay bytes mem) bytes.length byte = overlay (bytes ++ [byte]) mem := by
  rw [overlay_hole, update_overlay]

theorem bytesOf_overlay (mem : Nat → UInt8) : bytesOf bytes.length (overlay bytes mem) = bytes := by
  apply ext_getElem
  · simp [bytesOf]
  · intro place _ inside
    simp [bytesOf, overlay, getElem?_eq_getElem inside]

theorem overlay_of_le {bytes : List UInt8} {place : Nat} (outside : bytes.length ≤ place)
    (mem : Nat → UInt8) : overlay bytes mem place = mem place := by
  simp [overlay, getElem?_eq_none outside]

/-- The encoder behind some finished blocks, with a block in progress and any byte at the
place of its code. -/
def Stuffer.inBlock (mem : Nat → UInt8) (done : List UInt8) (hole : UInt8) (block : List UInt8) :
    Stuffer :=
  { mem := overlay (done ++ hole :: block) mem, dst := (done ++ hole :: block).length,
    code := UInt8.ofNat (block.length + 1), codePtr := done.length }

theorem code_eq_full_iff {length : Nat} (short : length < 255) :
    UInt8.ofNat (length + 1) = 0xFF ↔ length = 254 := by
  rw [← UInt8.toNat_inj, UInt8.toNat_ofNat_of_lt' (Nat.succ_lt_succ short)]
  exact Nat.succ_inj

variable (hole : UInt8) (code : UInt8)

theorem copy_inBlock (block : List UInt8) {byte : UInt8} (nonzero : byte ≠ 0) :
    (Stuffer.inBlock mem done hole block).copy byte =
      Stuffer.inBlock mem done hole (block ++ [byte]) := by
  have bytes : done ++ hole :: (block ++ [byte]) = (done ++ hole :: block) ++ [byte] := by simp
  have code : UInt8.ofNat (block.length + 1) + 1 = UInt8.ofNat ((block ++ [byte]).length + 1) := by
    rw [length_append]
    exact (UInt8.ofNat_add _ 1).symm
  unfold Stuffer.copy Stuffer.inBlock
  rw [if_pos nonzero, bytes]
  simp only [update_overlay_end, code]
  simp only [length_append, length_singleton]

theorem close_inBlock (block : List UInt8) :
    ∃ next, (Stuffer.inBlock mem done hole block).close =
      Stuffer.inBlock mem (done ++ UInt8.ofNat (block.length + 1) :: block) next [] := by
  refine ⟨mem (done ++ UInt8.ofNat (block.length + 1) :: block).length, ?_⟩
  unfold Stuffer.close Stuffer.inBlock
  rw [update_overlay, overlay_hole]
  simp [Nat.add_assoc]

theorem stuffRound_zero (s : Stuffer) : stuffRound s 0 = s.close := by
  simp [stuffRound, Stuffer.copy]

theorem stuffRound_nonzero (short : block.length < 254) {byte : UInt8} (nonzero : byte ≠ 0) :
    stuffRound (Stuffer.inBlock mem done hole block) byte =
      if block.length + 1 = 254 then (Stuffer.inBlock mem done hole (block ++ [byte])).close
      else Stuffer.inBlock mem done hole (block ++ [byte]) := by
  have longer : (block ++ [byte]).length = block.length + 1 := length_append
  have full : (Stuffer.inBlock mem done hole (block ++ [byte])).code = 0xFF ↔
      block.length + 1 = 254 := by
    rw [← longer]
    exact code_eq_full_iff (by omega)
  simp only [stuffRound, copy_inBlock mem done hole block nonzero, nonzero, false_or, full]

theorem foldl_stuffRound (done : List UInt8) (hole : UInt8) (block : List UInt8)
    (short : block.length < 254) :
    ∃ finished place last,
      rest.foldl stuffRound (Stuffer.inBlock mem done hole block) =
          Stuffer.inBlock mem finished place last ∧
        finished ++ UInt8.ofNat (last.length + 1) :: last = done ++ stuffed block rest := by
  induction rest generalizing done hole block with
  | nil => exact ⟨done, hole, block, rfl, rfl⟩
  | cons byte rest ih =>
    simp only [foldl_cons, stuffed]
    by_cases zero : byte = 0
    · obtain ⟨next, closed⟩ := close_inBlock mem done hole block
      rw [zero, stuffRound_zero, closed, if_pos rfl]
      obtain ⟨finished, place, last, loop, output⟩ := ih
        _ next [] (by decide)
      exact ⟨finished, place, last, loop, by rw [output, append_assoc]⟩
    rw [stuffRound_nonzero mem done hole short zero, if_neg zero]
    have longer : (block ++ [byte]).length = block.length + 1 := length_append
    by_cases full : block.length + 1 = 254
    · obtain ⟨next, closed⟩ := close_inBlock mem done hole _
      rw [longer, full] at closed
      rw [if_pos full, if_pos full, closed]
      obtain ⟨finished, place, last, loop, output⟩ := ih
        _ next [] (by decide)
      exact ⟨finished, place, last, loop, by rw [output, append_assoc]; rfl⟩
    · rw [if_neg full, if_neg full]
      exact ih done hole _ (by omega)

theorem stuffData_eq (ptr : List UInt8) (dst : Nat → UInt8) :
    stuffData ptr dst = ((stuffed [] ptr).length, overlay (stuffed [] ptr) dst) := by
  have start : ⟨dst, 1, 1, 0⟩ = Stuffer.inBlock dst [] (dst 0) [] := by
    have memory : overlay ([] ++ [dst 0]) dst = dst := (overlay_hole [] dst).symm
    simp only [Stuffer.inBlock, memory]
    rfl
  obtain ⟨finished, place, last, loop, output⟩ := foldl_stuffRound dst ptr [] _ [] (by decide)
  rw [nil_append] at output
  unfold stuffData
  rw [start, loop, ← output]
  simp only [Stuffer.inBlock, update_overlay]
  simp

theorem code_ne_zero {length : Nat} (short : length < 255) : UInt8.ofNat (length + 1) ≠ 0 := by
  intro same
  have value := congrArg UInt8.toNat same
  rw [UInt8.toNat_ofNat_of_lt' (Nat.succ_lt_succ short)] at value
  exact absurd value (Nat.succ_ne_zero length)

theorem zero_not_mem_stuffed (block : List UInt8) (short : block.length < 254) (clean : 0 ∉ block) :
    0 ∉ stuffed block rest := by
  induction rest generalizing block with
  | nil =>
    rw [stuffed, mem_cons, not_or]
    exact ⟨(code_ne_zero (Nat.lt_succ_of_lt short)).symm, clean⟩
  | cons byte rest ih =>
    have tail := ih [] (by decide) not_mem_nil
    rw [stuffed]
    split
    · rw [mem_append, mem_cons, not_or, not_or]
      exact ⟨⟨(code_ne_zero (Nat.lt_succ_of_lt short)).symm, clean⟩, tail⟩
    rename_i nonzero
    have longer : 0 ∉ block ++ [byte] := by
      rw [mem_append, mem_singleton, not_or]
      exact ⟨clean, fun same => nonzero same.symm⟩
    split
    · rw [mem_append, mem_cons, not_or, not_or]
      exact ⟨⟨by decide, longer⟩, tail⟩
    · next room =>
      apply ih _ _ longer
      rw [length_append, length_singleton]
      omega

theorem stuffed_length_le (block : List UInt8) :
    (stuffed block rest).length ≤
        block.length + rest.length + (block.length + rest.length) / 254 + 1 := by
  induction rest generalizing block with
  | nil => simp [stuffed]
  | cons byte rest ih =>
    have tail := ih []
    have longer := ih (block ++ [byte])
    rw [length_append, length_singleton] at longer
    rw [length_nil] at tail
    rw [stuffed, length_cons]
    split
    · rw [length_append, length_cons]
      omega
    split
    · rw [length_append, length_cons, length_append, length_singleton]
      omega
    · omega

theorem code_sub_one (length : Nat) : UInt8.ofNat (length + 1) - 1 = UInt8.ofNat length := by
  rw [UInt8.ofNat_add]
  exact UInt8.add_sub_cancel _ _

theorem unStuffLoop_block (rest : List UInt8) :
    ∀ block : List UInt8, block.length < 255 →
      unStuffLoop code (UInt8.ofNat block.length) (block ++ rest) =
        block ++ unStuffLoop code 0 rest := by
  intro block
  induction block with
  | nil =>
    intro _
    rfl
  | cons byte block ih =>
    intro short
    rw [length_cons, cons_append, unStuffLoop,
      if_pos (code_ne_zero (Nat.lt_of_succ_lt short)), code_sub_one, ih (Nat.lt_of_succ_lt short),
      cons_append]

/-- The zero that the decoder puts out before it takes a code. -/
def owed (code : UInt8) : List UInt8 :=
  if code ≠ 0xFF then [0] else []

theorem unStuffLoop_code (short : block.length < 255) (rest : List UInt8) :
    unStuffLoop code 0 (UInt8.ofNat (block.length + 1) :: (block ++ rest)) =
      owed code ++ block ++ unStuffLoop (UInt8.ofNat (block.length + 1)) 0 rest := by
  rw [unStuffLoop, if_neg (not_not.mpr rfl), if_neg (code_ne_zero short), code_sub_one,
    unStuffLoop_block _ rest block short, append_assoc]
  rfl

theorem unStuff_stuffed (block : List UInt8) (short : block.length < 254) :
    unStuffLoop code 0 (stuffed block rest) = owed code ++ block ++ rest := by
  induction rest generalizing code block with
  | nil =>
    have taken := unStuffLoop_code code (Nat.lt_succ_of_lt short) []
    rw [append_nil] at taken
    rw [stuffed, taken]
    rfl
  | cons byte rest ih =>
    have longer : (block ++ [byte]).length = block.length + 1 := length_append
    rw [stuffed]
    split
    · next zero =>
      have owes : owed (UInt8.ofNat (block.length + 1)) = [0] := by
        apply if_pos
        rw [ne_eq, code_eq_full_iff (Nat.lt_succ_of_lt short)]
        exact Nat.ne_of_lt short
      rw [cons_append, unStuffLoop_code code (Nat.lt_succ_of_lt short),
        ih _ [] (by decide), owes, zero]
      simp
    split
    · next full =>
      have taken := unStuffLoop_code code (by omega : (block ++ [byte]).length < 255)
        (stuffed [] rest)
      rw [longer, full] at taken
      refine taken.trans ?_
      rw [ih _ [] (by decide)]
      simp [owed]
    · next room =>
      rw [ih code _ (by omega)]
      simp

/-- **Byte stuffing**: the encoded string has no zero byte, is longer by at most one byte and one
for every 254, and decodes to the string; nothing is written behind it. -/
theorem stuffData_round_trip (ptr : List UInt8) (dst : Nat → UInt8) :
    0 ∉ bytesOf (stuffData ptr dst).1 (stuffData ptr dst).2 ∧
      (stuffData ptr dst).1 ≤ ptr.length + ptr.length / 254 + 1 ∧
      unStuffData (bytesOf (stuffData ptr dst).1 (stuffData ptr dst).2) = ptr ∧
      ∀ place, (stuffData ptr dst).1 ≤ place → (stuffData ptr dst).2 place = dst place := by
  rw [stuffData_eq, bytesOf_overlay]
  refine ⟨?_, ?_, ?_, ?_⟩
  · exact zero_not_mem_stuffed ptr [] (by decide) not_mem_nil
  · have length := stuffed_length_le ptr []
    rwa [length_nil, Nat.zero_add] at length
  · exact unStuff_stuffed ptr 0xFF [] (by decide)
  · intro place outside
    exact overlay_of_le outside dst

end Phy6212.Voice
