import Mathlib.Data.List.Infix
import Mathlib.Data.List.TakeWhile

/-!
# Strings in memory

The functions of the C library on strings. A string is the bytes up to the next zero byte of a block
(`textAt`); without one, a function reads past the block.
-/

namespace CLib

open List

universe u

/-- The string at a place of a block, when it ends inside the block. -/
def textAt (mem : List UInt8) (place : Nat) : Option (List UInt8) :=
  if 0 ∈ mem.drop place then some ((mem.drop place).takeWhile (· ≠ 0)) else none

theorem takeWhile_nul (bytes after : List UInt8) :
    (bytes ++ 0 :: after).takeWhile (· ≠ 0) = bytes.takeWhile (· ≠ 0) := by
  induction bytes with
  | nil => rfl
  | cons byte bytes ih =>
    by_cases zero : byte = 0
    · rw [cons_append, takeWhile_cons_of_neg (by simpa using zero),
        takeWhile_cons_of_neg (by simpa using zero)]
    · rw [cons_append, takeWhile_cons_of_pos (by simpa using zero),
        takeWhile_cons_of_pos (by simpa using zero), ih]

variable {rest text digits : List UInt8} {byte : UInt8}

theorem takeWhile_text (nonzero : 0 ∉ text) (more : List UInt8) :
    (text ++ more).takeWhile (· ≠ 0) = text ++ more.takeWhile (· ≠ 0) := by
  apply takeWhile_append_of_pos
  intro byte member
  have other : byte ≠ 0 := by
    rintro rfl
    exact nonzero member
  simpa using other

theorem textAt_nul (before bytes after : List UInt8) :
    textAt (before ++ (bytes ++ 0 :: after)) before.length = some (bytes.takeWhile (· ≠ 0)) := by
  have zero : 0 ∈ bytes ++ 0 :: after := mem_append_right bytes mem_cons_self
  rw [textAt, drop_left, if_pos zero, takeWhile_nul]

theorem textAt_append (before : List UInt8) (nonzero : 0 ∉ text) (after : List UInt8) :
    textAt (before ++ (text ++ 0 :: after)) before.length = some text := by
  have whole := takeWhile_text nonzero []
  rw [takeWhile_nil, append_nil] at whole
  rw [textAt_nul, whole]

theorem mem_of_textAt {mem : List UInt8} {place : Nat} (found : textAt mem place = some text)
    (member : byte ∈ text) : byte ∈ mem.drop place := by
  unfold textAt at found
  split at found
  · cases found
    exact (takeWhile_sublist _).mem member
  · cases found

/-- **The string at a place**: the bytes from there on begin with it and a zero byte. -/
theorem textAt_eq_some_iff {mem : List UInt8} {place : Nat} :
    textAt mem place = some text ↔ 0 ∉ text ∧ ∃ after, mem.drop place = text ++ 0 :: after := by
  unfold textAt
  constructor
  · intro found
    split at found
    · next ended =>
      cases found
      refine ⟨fun zero => by simpa using mem_takeWhile_imp zero, ?_⟩
      have parts : (mem.drop place).takeWhile _ ++ (mem.drop place).dropWhile (· ≠ 0) =
          mem.drop place := takeWhile_append_dropWhile
      have stopped := head?_dropWhile_not (fun byte : UInt8 => decide (byte ≠ 0)) (mem.drop place)
      cases rest : (mem.drop place).dropWhile _ with
      | nil =>
        rw [rest, append_nil] at parts
        rw [← parts] at ended
        have nonzero := mem_takeWhile_imp ended
        simp at nonzero
      | cons byte after =>
        rw [rest] at stopped parts
        obtain rfl : byte = 0 := by simpa using stopped
        exact ⟨after, parts.symm⟩
    · cases found
  · rintro ⟨nonzero, after, split⟩
    have whole := takeWhile_text nonzero (0 :: after)
    rw [split, if_pos (mem_append_right _ mem_cons_self), whole]
    simp

section Search

variable {α : Type u} [DecidableEq α]

def strchr (text : List α) (c : α) : Option Nat := text.idxOf? c

def strrchr : List α → α → Option Nat
  | [], _ => none
  | b :: rest, c =>
    match strrchr rest c with
    | some place => some (place + 1)
    | none => if b = c then some 0 else none

def strstr (pattern : List α) : List α → Option Nat
  | [] => if pattern = [] then some 0 else none
  | b :: rest =>
    if pattern.isPrefixOf (b :: rest) then some 0 else (strstr pattern rest).map (· + 1)

theorem strchr_append {before : List α} {c : α} (none_ : c ∉ before) (after : List α) :
    strchr (before ++ c :: after) c = some before.length := by
  induction before with
  | nil => simp [strchr, idxOf?_cons]
  | cons b before ih =>
    obtain ⟨first, rest⟩ := not_or.mp (mt mem_cons.mpr none_)
    have further := ih rest
    unfold strchr at further ⊢
    rw [cons_append, idxOf?_cons, if_neg (by simpa using Ne.symm first), further]
    rfl

theorem strrchr_eq_none_iff (text : List α) (c : α) : strrchr text c = none ↔ c ∉ text := by
  induction text with
  | nil => simp [strrchr]
  | cons b text ih =>
    rw [strrchr, mem_cons, not_or]
    cases found : strrchr text c with
    | some place =>
      have member : c ∈ text := by
        by_contra absent
        rw [ih.mpr absent] at found
        cases found
      simp [member]
    | none =>
      have absent := ih.mp found
      by_cases this : b = c
      · simp [this]
      · simp [this, absent, Ne.symm]

theorem strrchr_eq_some_iff (text : List α) (c : α) (place : Nat) :
    strrchr text c = some place ↔
      ∃ before after, text = before ++ c :: after ∧ before.length = place ∧ c ∉ after := by
  induction text generalizing place with
  | nil => simp [strrchr]
  | cons b text ih =>
    rw [strrchr]
    constructor
    · intro found
      cases later : strrchr text c with
      | some place' =>
        rw [later] at found
        cases found
        obtain ⟨before, after, rfl, rfl, none_⟩ := (ih place').mp later
        exact ⟨b :: before, after, rfl, rfl, none_⟩
      | none =>
        rw [later] at found
        dsimp only at found
        split at found
        · next this =>
          cases found
          exact ⟨[], text, by rw [this]; rfl, rfl, (strrchr_eq_none_iff text c).mp later⟩
        · cases found
    · rintro ⟨before, after, split, length, none_⟩
      cases before with
      | nil =>
        obtain ⟨rfl, rfl⟩ := List.cons.inj split
        rw [(strrchr_eq_none_iff text b).mpr none_]
        simp [← length]
      | cons b' before =>
        obtain ⟨rfl, rfl⟩ := List.cons.inj split
        rw [(ih before.length).mpr ⟨before, after, rfl, rfl, none_⟩, ← length]
        rfl

theorem strrchr_append (before : List α) {c : α} {after : List α} (none_ : c ∉ after) :
    strrchr (before ++ c :: after) c = some before.length :=
  (strrchr_eq_some_iff _ c _).mpr ⟨before, after, rfl, rfl, none_⟩

def OccursAt (pattern : List α) (place : Nat) (text : List α) : Prop :=
  ∃ before after, text = before ++ (pattern ++ after) ∧ before.length = place

variable {place : Nat}

theorem strstr_spec {pattern text : List α} (found : strstr pattern text = some place) :
    OccursAt pattern place text := by
  induction text generalizing place with
  | nil =>
    rw [strstr] at found
    split at found
    · next empty =>
      cases found
      exact ⟨[], [], by rw [empty]; rfl, rfl⟩
    · cases found
  | cons b text ih =>
    rw [strstr] at found
    split at found
    · next here =>
      cases found
      obtain ⟨after, split⟩ := isPrefixOf_iff_prefix.mp here
      exact ⟨[], after, split.symm, rfl⟩
    · obtain ⟨place', later, rfl⟩ := Option.map_eq_some_iff.mp found
      obtain ⟨before, after, rfl, rfl⟩ := ih later
      exact ⟨b :: before, after, rfl, rfl⟩

theorem strstr_append (pattern before after : List α) :
    ∃ place, strstr pattern (before ++ (pattern ++ after)) = some place ∧ place ≤ before.length := by
  induction before with
  | nil =>
    refine ⟨0, ?_, Nat.le_refl 0⟩
    have here : pattern.isPrefixOf _ = true :=
      isPrefixOf_iff_prefix.mpr (prefix_append pattern after)
    rw [nil_append]
    cases text : pattern ++ after with
    | nil => rw [strstr, if_pos (append_eq_nil_iff.mp text).1]
    | cons b rest => rw [strstr, ← text, if_pos here]
  | cons b before ih =>
    obtain ⟨place, found, before_⟩ := ih
    rw [cons_append, strstr]
    split
    · exact ⟨0, rfl, Nat.zero_le _⟩
    · exact ⟨place + 1, by rw [found]; rfl, Nat.succ_le_succ before_⟩

theorem OccursAt.isPrefixOf_drop {pattern text : List α} (occurs : OccursAt pattern place text) :
    place < text.length + 1 ∧ pattern.isPrefixOf (text.drop place) = true := by
  obtain ⟨before, after, rfl, rfl⟩ := occurs
  rw [drop_left, length_append]
  exact ⟨Nat.lt_succ_of_le (Nat.le_add_right _ _),
    isPrefixOf_iff_prefix.mpr (prefix_append pattern after)⟩

theorem strstr_of_only {pattern text : List α} (here : OccursAt pattern place text)
    (only : ∀ other, OccursAt pattern other text → other = place) :
    strstr pattern text = some place := by
  obtain ⟨before, after, rfl, rfl⟩ := here
  obtain ⟨found, eq, -⟩ := strstr_append pattern before after
  rw [eq, only found (strstr_spec eq)]

theorem strstr_append_right {pattern text : List α} (found : strstr pattern text = some place)
    (more : List α) : strstr pattern (text ++ more) = some place := by
  induction text generalizing place with
  | nil =>
    rw [strstr] at found
    split at found
    · next empty =>
      cases found
      subst empty
      cases more <;> simp [strstr]
    · cases found
  | cons b text ih =>
    rw [cons_append, strstr]
    rw [strstr] at found
    split at found
    · next here =>
      cases found
      have further : pattern.isPrefixOf (b :: (text ++ more)) = true :=
        isPrefixOf_iff_prefix.mpr
          (( isPrefixOf_iff_prefix.mp here).trans (prefix_append _ more))
      rw [if_pos further]
    · next elsewhere =>
      obtain ⟨place', later, rfl⟩ := Option.map_eq_some_iff.mp found
      have inside : pattern.length ≤ text.length := by
        obtain ⟨before, after, rfl, -⟩ := strstr_spec later
        simp only [length_append]
        omega
      have still : ¬ pattern.isPrefixOf (b :: (text ++ more)) = true := by
        intro here
        apply elsewhere
        rw [ isPrefixOf_iff_prefix] at here ⊢
        exact prefix_of_prefix_length_le here (prefix_append _ more)
          (Nat.le_succ_of_le inside)
      rw [if_neg still, ih later]
      rfl

theorem strstr_singleton (c : α) (text : List α) : strstr [c] text = strchr text c := by
  induction text with
  | nil => rfl
  | cons b text ih =>
    unfold strchr at ih ⊢
    rw [strstr, idxOf?_cons, ih]
    by_cases here : b = c
    · simp [here]
    · simp [here, Ne.symm]

theorem filter_tails_strstr {pattern : List α} (nonempty : pattern ≠ []) (text : List α) :
    text.tails.filter (pattern.isPrefixOf ·) =
      (strstr pattern text).elim [] fun place =>
        (text.drop place).tails.filter (pattern.isPrefixOf ·) := by
  induction text with
  | nil => simp [strstr, nonempty]
  | cons b text ih =>
    rw [strstr]
    by_cases here : pattern.isPrefixOf (b :: text) = true
    · rw [if_pos here]
      rfl
    rw [if_neg here, tails_cons, filter_cons_of_neg here, ih]
    cases strstr pattern text with
    | none => rfl
    | some place => rfl

end Search

def isSpace (byte : UInt8) : Bool := byte = 0x20 || (0x09 ≤ byte && byte ≤ 0x0D)

def digitOf (byte : UInt8) : Option Nat :=
  if 0x30 ≤ byte ∧ byte ≤ 0x39 then some (byte.toNat - 0x30)
  else if 0x61 ≤ byte ∧ byte ≤ 0x7A then some (byte.toNat - 0x61 + 10)
  else if 0x41 ≤ byte ∧ byte ≤ 0x5A then some (byte.toNat - 0x41 + 10)
  else none

def isDigit (base : Nat) (byte : UInt8) : Bool := (digitOf byte).any (· < base)

def numeral (base : Nat) (digits : List UInt8) : Nat :=
  digits.foldl (fun value byte => value * base + (digitOf byte).getD 0) 0

def longMax : Int := 2147483647

/-- A value that does not fit is replaced by the next one that does. -/
def saturate (value : Int) : Int := max (-longMax - 1) (min value longMax)

def signOf : List UInt8 → Bool × Nat
  | 0x2D :: _ => (true, 1)
  | 0x2B :: _ => (false, 1)
  | _ => (false, 0)

/-- The number of characters of the mark of a hexadecimal number before a digit. -/
def hexMark (base : Nat) : List UInt8 → Nat
  | 0x30 :: 0x78 :: byte :: _ => if base = 16 ∧ isDigit 16 byte then 2 else 0
  | 0x30 :: 0x58 :: byte :: _ => if base = 16 ∧ isDigit 16 byte then 2 else 0
  | _ => 0

/-- `strtol` with a base: the value, and the place of the first character that is not part of the
number. -/
def strtol (base : Nat) (text : List UInt8) : Int × Nat :=
  let spaces := (text.takeWhile isSpace).length
  let (negative, sign) := signOf (text.drop spaces)
  let mark := hexMark base (text.drop (spaces + sign))
  let digits := (text.drop (spaces + sign + mark)).takeWhile (isDigit base)
  if digits = [] then (0, 0)
  else (saturate (if negative then -(numeral base digits : Int) else numeral base digits),
    spaces + sign + mark + digits.length)

def atoi (text : List UInt8) : Int := (strtol 10 text).1

section

variable (digit : isDigit 10 byte = true)

include digit

theorem isDigit_ten : 0x30 ≤ byte ∧ byte ≤ 0x39 := by
  unfold isDigit digitOf at digit
  split at digit
  · assumption
  split at digit
  · simp only [Option.any_some, decide_eq_true_eq] at digit
    omega
  split at digit
  · simp only [Option.any_some, decide_eq_true_eq] at digit
    omega
  · cases digit

theorem isSpace_of_isDigit : isSpace byte = false := by
  obtain ⟨low, high⟩ := isDigit_ten digit
  have least : 0x30 ≤ byte.toNat := low
  have other : byte ≠ 0x20 := by
    rintro rfl
    exact absurd least (by decide)
  have above : ¬ byte ≤ 0x0D := by
    intro small
    have most : byte.toNat ≤ 0x0D := small
    omega
  simp [isSpace, other, above]

theorem signOf_of_isDigit (rest : List UInt8) : signOf (byte :: rest) = (false, 0) := by
  obtain ⟨low, -⟩ := isDigit_ten digit
  unfold signOf
  split
  · next minus =>
    rw [(List.cons.inj minus).1] at low
    exact absurd low (by decide)
  · next plus =>
    rw [(List.cons.inj plus).1] at low
    exact absurd low (by decide)
  · rfl

end

theorem hexMark_ten (text : List UInt8) : hexMark 10 text = 0 := by
  unfold hexMark
  split
  · exact if_neg fun both => absurd both.1 (by decide)
  · exact if_neg fun both => absurd both.1 (by decide)
  · rfl

theorem takeWhile_digits {base : Nat} (all : ∀ byte ∈ digits, isDigit base byte = true)
    (stops : ∀ byte ∈ rest.head?, isDigit base byte = false) :
    (digits ++ rest).takeWhile (isDigit base) = digits := by
  rw [takeWhile_append_of_pos all]
  cases rest with
  | nil => rw [takeWhile_nil, append_nil]
  | cons byte rest =>
    have stop : ¬ isDigit base byte = true := by
      rw [stops byte rfl]
      decide
    rw [takeWhile_cons_of_neg stop, append_nil]

theorem strtol_digits (some_ : digits ≠ []) (decimal : ∀ byte ∈ digits, isDigit 10 byte = true)
    (stops : ∀ byte ∈ rest.head?, isDigit 10 byte = false) :
    strtol 10 (digits ++ rest) = (saturate (numeral 10 digits), digits.length) := by
  obtain ⟨first, more, rfl⟩ := exists_cons_of_ne_nil some_
  have digit : isDigit 10 first = true := decimal first mem_cons_self
  have spaces : (first :: more ++ rest).takeWhile isSpace = [] := by
    rw [cons_append, takeWhile_cons_of_neg (by rw [isSpace_of_isDigit digit]; decide)]
  have number : (first :: more ++ rest).takeWhile _ = first :: more :=
    takeWhile_digits decimal stops
  have sign : signOf (first :: more ++ rest) = (false, 0) := signOf_of_isDigit digit _
  simp only [strtol, spaces, length_nil, drop_zero, sign, hexMark_ten, Nat.add_zero,
    Nat.zero_add, number]
  rfl

end CLib
