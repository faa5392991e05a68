import Phy6212.AtServer.Server

/-!
# The command lines of a stream

A command line is a line with `AT` in it, from its first `AT` on (`commandLines`), whatever the
notifications with which the bytes come.
-/

namespace Phy6212.AtServer

open List

/-- What has been read of a line: `AT` has not been found, and the last byte was or was not an `A`;
or it has been found, and this is the text from there on. -/
inductive Line where
  | seek (afterA : Bool)
  | found (text : List UInt8)
  deriving DecidableEq, Repr

def Line.next : Line → UInt8 → Line
  | .seek afterA, c =>
    if afterA = true ∧ c = charT then .found [charA, charT] else .seek (c = charA)
  | .found text, c => .found (text ++ [c])

def commandLinesFrom : Line → List UInt8 → List (List UInt8)
  | _, [] => []
  | .seek afterA, c :: rest =>
    if endsLine c then commandLinesFrom (.seek false) rest
    else commandLinesFrom (Line.next (.seek afterA) c) rest
  | .found text, c :: rest =>
    if endsLine c then text :: commandLinesFrom (.seek false) rest
    else commandLinesFrom (Line.next (.found text) c) rest

def commandLines (stream : List UInt8) : List (List UInt8) := commandLinesFrom (.seek false) stream

/-- Every line that is ended fits into the buffer, behind a line with this many bytes. -/
def linesFitFrom : Nat → List UInt8 → Prop
  | _, [] => True
  | size, c :: rest =>
    if endsLine c then size < bufferMaxSize - 1 ∧ linesFitFrom 0 rest
    else linesFitFrom (size + 1) rest

instance decidableLinesFitFrom :
    (size : Nat) → (bytes : List UInt8) → Decidable (linesFitFrom size bytes)
  | _, [] => inferInstanceAs (Decidable True)
  | size, c :: rest =>
    haveI := decidableLinesFitFrom 0 rest
    haveI := decidableLinesFitFrom (size + 1) rest
    inferInstanceAs (Decidable (if endsLine c then
      size < bufferMaxSize - 1 ∧ linesFitFrom 0 rest else linesFitFrom (size + 1) rest))

def LinesFit (stream : List UInt8) : Prop := linesFitFrom 0 stream

instance (stream : List UInt8) : Decidable (LinesFit stream) :=
  inferInstanceAs (Decidable (linesFitFrom 0 stream))

def bytesOf : List Sym → List UInt8
  | [] => []
  | .dry :: syms => bytesOf syms
  | .byte c :: syms => c :: bytesOf syms

def Ended (syms : List Sym) : Prop := ∃ c ∈ bytesOf syms, endsLine c = true

instance (syms : List Sym) : Decidable (Ended syms) :=
  inferInstanceAs (Decidable (∃ c ∈ bytesOf syms, endsLine c = true))

/-- The buffer has room for every byte that is read in search of `AT`, when it has this many bytes
of the search in it. -/
def searchFitsFrom : Line → Nat → List Sym → Prop
  | _, _, [] => True
  | line, _, .dry :: syms => searchFitsFrom line 0 syms
  | .seek afterA, size, .byte c :: syms =>
    (Ended (.byte c :: syms) → size < bufferMaxSize - 1) ∧
      searchFitsFrom (if endsLine c then .seek false else Line.next (.seek afterA) c)
        (size + 1) syms
  | .found text, _, .byte c :: syms =>
    searchFitsFrom (if endsLine c then .seek false else Line.next (.found text) c) 0 syms

instance decidableSearchFitsFrom :
    (line : Line) → (size : Nat) → (syms : List Sym) → Decidable (searchFitsFrom line size syms)
  | .seek _, _, [] => inferInstanceAs (Decidable True)
  | .found _, _, [] => inferInstanceAs (Decidable True)
  | .seek afterA, _, .dry :: syms => decidableSearchFitsFrom (.seek afterA) 0 syms
  | .found text, _, .dry :: syms => decidableSearchFitsFrom (.found text) 0 syms
  | .seek afterA, size, .byte c :: syms =>
    haveI := decidableSearchFitsFrom
      (if endsLine c then .seek false else Line.next (.seek afterA) c) (size + 1) syms
    instDecidableAnd
  | .found _, _, .byte _ :: syms => decidableSearchFitsFrom _ 0 syms

def SearchFits (stream : List UInt8) : Prop :=
  searchFitsFrom (.seek false) 0 (stream.map .byte)

instance (stream : List UInt8) : Decidable (SearchFits stream) :=
  inferInstanceAs (Decidable (searchFitsFrom (.seek false) 0 (stream.map .byte)))

/-- Whether the UART has been dry since the last `A`, behind one more byte. -/
def Line.cutNext (line : Line) (cut : Bool) (c : UInt8) : Bool :=
  match line with
  | .seek _ => if c = charA then false else cut
  | .found _ => cut

def Line.cutDry (line : Line) (cut : Bool) : Bool :=
  match line with
  | .seek _ => true
  | .found _ => cut

def cutsFrom : Line → Bool → List Sym → Prop
  | _, _, [] => False
  | line, cut, .dry :: syms => cutsFrom line (line.cutDry cut) syms
  | .seek afterA, cut, .byte c :: syms =>
    if endsLine c then cutsFrom (.seek false) false syms
    else cutsFrom (Line.next (.seek afterA) c) (Line.cutNext (.seek afterA) cut c) syms
  | .found text, cut, .byte c :: syms =>
    if endsLine c then cut = true ∨ cutsFrom (.seek false) false syms
    else cutsFrom (Line.next (.found text) c) cut syms

instance decidableCutsFrom :
    (line : Line) → (cut : Bool) → (syms : List Sym) → Decidable (cutsFrom line cut syms)
  | .seek _, _, [] => inferInstanceAs (Decidable False)
  | .found _, _, [] => inferInstanceAs (Decidable False)
  | .seek _, _, .dry :: syms => decidableCutsFrom _ _ syms
  | .found _, _, .dry :: syms => decidableCutsFrom _ _ syms
  | .seek afterA, cut, .byte c :: syms =>
    haveI := decidableCutsFrom (.seek false) false syms
    haveI := decidableCutsFrom (Line.next (.seek afterA) c)
      (Line.cutNext (.seek afterA) cut c) syms
    inferInstanceAs (Decidable (if endsLine c then cutsFrom (.seek false) false syms
      else cutsFrom (Line.next (.seek afterA) c) (Line.cutNext (.seek afterA) cut c) syms))
  | .found text, cut, .byte c :: syms =>
    haveI := decidableCutsFrom (.seek false) false syms
    haveI := decidableCutsFrom (Line.next (.found text) c) cut syms
    inferInstanceAs (Decidable (if endsLine c then
      cut = true ∨ cutsFrom (.seek false) false syms
      else cutsFrom (Line.next (.found text) c) cut syms))

/-- A notification ends between the letters of the first `AT` of a command line. -/
def CutsPrefix (chunks : List (List UInt8)) : Prop := cutsFrom (.seek false) false (marks chunks)

instance (chunks : List (List UInt8)) : Decidable (CutsPrefix chunks) :=
  inferInstanceAs (Decidable (cutsFrom (.seek false) false (marks chunks)))

@[simp] theorem bytesOf_append (left right : List Sym) :
    bytesOf (left ++ right) = bytesOf left ++ bytesOf right := by
  induction left with
  | nil => rfl
  | cons sym left ih => cases sym <;> simp [bytesOf, ih]

@[simp] theorem bytesOf_map_byte (bytes : List UInt8) : bytesOf (bytes.map .byte) = bytes := by
  induction bytes with
  | nil => rfl
  | cons c rest ih => simp [bytesOf, ih]

theorem bytesOf_marks (chunks : List (List UInt8)) : bytesOf (marks chunks) = chunks.flatten := by
  induction chunks with
  | nil => rfl
  | cons chunk chunks ih =>
    have portions : marks (chunk :: chunks) = chunk.map .byte ++ .dry :: marks chunks := by
      simp [marks]
    rw [portions, bytesOf_append, bytesOf_map_byte, bytesOf, ih, flatten_cons]

theorem exists_marks (syms : List Sym) :
    ∃ chunks, marks chunks = syms ++ [.dry] ∧ chunks.flatten = bytesOf syms := by
  suffices portions : ∃ chunk chunks, marks _ = syms ++ [.dry] by
    obtain ⟨chunk, chunks, marked⟩ := portions
    refine ⟨chunk :: chunks, marked, ?_⟩
    rw [← bytesOf_marks, marked, bytesOf_append]
    exact append_nil _
  induction syms with
  | nil => exact ⟨[], [], rfl⟩
  | cons sym syms ih =>
    obtain ⟨chunk, chunks, marked⟩ := ih
    cases sym with
    | byte c =>
      refine ⟨c :: chunk, chunks, ?_⟩
      rw [cons_append, ← marked]
      rfl
    | dry =>
      refine ⟨[], chunk :: chunks, ?_⟩
      rw [cons_append, ← marked]
      rfl

variable {a : Assembly} {c : UInt8}

theorem put_of_room (room : a.text.length < bufferMaxSize - 1) : a.put c = a.text ++ [c] := by
  rw [Assembly.put, if_neg (Nat.not_le_of_lt room)]

theorem getLast?_put : (a.put c).getLast? = some c := by
  simp [Assembly.put]

theorem charA_charT_suffix (text : List UInt8) :
    [charA, charT] <:+ text ++ [c] ↔ text.getLast? = some charA ∧ c = charT := by
  have split : [charA, charT] = [charA] ++ [charT] := rfl
  rw [split, suffix_append_inj_of_length_eq (show [charT].length = [c].length from rfl),
    singleton_suffix_iff_getLast?_eq_some]
  simp [eq_comm]

theorem last_of_suffix_put (here : [charA, charT] <:+ a.put c) :
    a.text.getLast? = some charA ∧ c = charT := by
  rw [Assembly.put, charA_charT_suffix] at here
  split at here
  · exact absurd here.1 (by simp)
  · exact here

theorem ne_charT_of_endsLine (ended : endsLine c = true) : c ≠ charT := by
  rintro rfl
  exact absurd ended (by decide)

theorem ne_charA_of_endsLine (ended : endsLine c = true) : c ≠ charA := by
  rintro rfl
  exact absurd ended (by decide)

theorem feed_hunt_endsLine (text : List UInt8) (ended : endsLine c = true) :
    Assembly.feed ⟨false, text⟩ c = .more ⟨false, Assembly.put ⟨false, text⟩ c⟩ := by
  rw [feed_hunt, if_neg]
  intro here
  exact ne_charT_of_endsLine ended (last_of_suffix_put here).2

theorem feed_inside (a : Assembly) (inside : endsLine c = false) : ∃ a', a.feed c = .more a' := by
  obtain ⟨flag, text⟩ := a
  cases flag with
  | true => exact ⟨_, by rw [feed_collect, inside]; rfl⟩
  | false =>
    rw [feed_hunt]
    split
    · exact ⟨_, rfl⟩
    · exact ⟨_, rfl⟩

theorem collected_more {a' : Assembly} (fed : a.feed c = .more a') (syms : List Sym) :
    collected a (.byte c :: syms) = collected a' syms := by
  rw [collected, fed]

variable {text : List UInt8}

theorem collected_line (fed : a.feed c = .line text) (syms : List Sym) :
    collected a (.byte c :: syms) = text :: collected ⟨false, []⟩ syms := by
  rw [collected, fed]

def Line.Within : Line → Nat → Prop
  | .seek afterA, size => afterA = true → 1 ≤ size
  | .found text, size => 2 ≤ text.length ∧ text.length ≤ size

theorem within_seek_false (size : Nat) : (Line.seek false).Within size := nofun

theorem Line.Within.next {line : Line} {size : Nat} (within : line.Within size) (c : UInt8) :
    (line.next c).Within (size + 1) := by
  cases line with
  | seek afterA =>
    rw [Line.next]
    split
    next both => exact ⟨Nat.le_refl 2, Nat.succ_le_succ (within both.1)⟩
    next => exact fun _ => Nat.succ_le_succ (Nat.zero_le size)
  | found text =>
    rw [Line.next, Line.Within, length_append]
    exact ⟨Nat.le_succ_of_le within.1, Nat.succ_le_succ within.2⟩

theorem size_lt_of_linesFitFrom {size : Nat} {bytes : List UInt8} (fit : linesFitFrom size bytes)
    (ended : ∃ c ∈ bytes, endsLine c = true) : size < bufferMaxSize - 1 := by
  induction bytes generalizing size with
  | nil =>
    obtain ⟨c, mem, _⟩ := ended
    exact absurd mem not_mem_nil
  | cons c rest ih =>
    rw [linesFitFrom] at fit
    split at fit
    next => exact fit.1
    rename_i inside
    obtain ⟨d, mem, ends⟩ := ended
    have later : d ∈ rest := by
      rcases mem_cons.mp mem with rfl | later
      · exact absurd ends inside
      · exact later
    exact Nat.lt_of_succ_lt (ih fit ⟨d, later, ends⟩)

variable {syms : List Sym}

inductive Unended : List Sym → Prop where
  | nil : Unended []
  | dry {syms : List Sym} (rest : Unended syms) : Unended (.dry :: syms)
  | byte {c : UInt8} {syms : List Sym} (inside : endsLine c = false) (rest : Unended syms) :
      Unended (.byte c :: syms)

theorem ended_cons (inside : endsLine c = false) : Ended (.byte c :: syms) ↔ Ended syms := by
  simp [Ended, bytesOf, inside]

theorem unended_of_not_ended (unended : ¬ Ended syms) : Unended syms := by
  induction syms with
  | nil => exact .nil
  | cons sym syms ih =>
    cases sym with
    | dry => exact .dry (ih unended)
    | byte c =>
      have inside : endsLine c = false :=
        Bool.eq_false_iff.mpr fun ends => unended ⟨c, mem_cons_self, ends⟩
      exact .byte inside (ih (mt (ended_cons inside).mpr unended))

theorem Unended.collected (unended : Unended syms) (a : Assembly) : collected a syms = [] := by
  induction unended generalizing a with
  | nil => rfl
  | dry rest ih => exact ih _
  | byte inside rest ih =>
    obtain ⟨a', fed⟩ := feed_inside a inside
    rw [collected_more fed]
    exact ih a'

theorem Unended.commandLinesFrom (unended : Unended syms) (line : Line) :
    commandLinesFrom line (bytesOf syms) = [] := by
  induction unended generalizing line with
  | nil => cases line <;> rfl
  | dry rest ih => exact ih line
  | byte inside rest ih =>
    cases line with
    | seek afterA =>
      rw [bytesOf, AtServer.commandLinesFrom, inside]
      exact ih _
    | found text =>
      rw [bytesOf, AtServer.commandLinesFrom, inside]
      exact ih _

theorem Unended.not_cutsFrom (unended : Unended syms) (line : Line) (cut : Bool) :
    ¬ cutsFrom line cut syms := by
  induction unended generalizing line cut with
  | nil => cases line <;> exact id
  | dry rest ih =>
    exact ih _ _
  | byte inside rest ih =>
    cases line with
    | seek afterA =>
      rw [cutsFrom, inside]
      exact ih _ _
    | found text =>
      rw [cutsFrom, inside]
      exact ih _ _

theorem cutsFrom_of_ended (ended : Ended syms) : cutsFrom (.found text) true syms := by
  induction syms generalizing text with
  | nil =>
    obtain ⟨c, mem, _⟩ := ended
    exact absurd mem not_mem_nil
  | cons sym syms ih =>
    cases sym with
    | dry => exact ih ended
    | byte c =>
      rw [cutsFrom]
      split
      next => exact Or.inl rfl
      next inside =>
        rw [ended_cons (Bool.eq_false_iff.mpr inside)] at ended
        exact ih ended

end Phy6212.AtServer
