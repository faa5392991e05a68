import Phy6212.AtServer.Command

/-!
# Notifications that cut a command prefix in two

A notification that ends between the two letters of the first `AT` of a line makes the server forget
the `A` (`prefix_cut_in_two`).
-/

namespace Phy6212.AtServer

open List

/-! ## No split gives more than the command lines -/

/-- What the server can have in its buffer: when it searches behind an `A`, this is the last byte
and the UART has not been dry since; when it collects a line, it has the
text or an end of it, and not all of it if the prefix was cut. -/
inductive Behind : Line → Bool → Assembly → Prop
  | seek {afterA cut : Bool} {text : List UInt8}
      (last : text.getLast? = some charA → afterA = true ∧ cut = false) :
      Behind (.seek afterA) cut ⟨false, text⟩
  | hunting {text read : List UInt8} {cut : Bool} : Behind (.found text) cut ⟨false, read⟩
  | collecting {text read : List UInt8} {cut : Bool} (some_byte : read ≠ [])
      (no_more : read.length ≤ text.length) (less : cut = true → read.length < text.length) :
      Behind (.found text) cut ⟨true, read⟩

variable {line : Line} {cut : Bool} {a : Assembly} {c : UInt8} {size : Nat}

theorem behind_start (cut : Bool) : Behind (.seek false) cut ⟨false, []⟩ := .seek nofun

theorem behind_put_endsLine (read : List UInt8) (ended : endsLine c = true) :
    Behind (.seek false) false ⟨false, Assembly.put ⟨false, read⟩ c⟩ := by
  refine .seek fun last => ?_
  rw [getLast?_put] at last
  exact absurd (Option.some.inj last) (ne_charA_of_endsLine ended)

theorem Behind.dry (behind : Behind line cut a) : Behind line (line.cutDry cut) a.settle := by
  cases behind with
  | seek last => exact .seek nofun
  | hunting => exact .hunting
  | collecting some_byte no_more less => exact .collecting some_byte no_more less

theorem Behind.next (behind : Behind line cut a) (within : line.Within size)
    (room : size < bufferMaxSize - 1) (inside : endsLine c = false) :
    ∃ a', a.feed c = .more a' ∧ Behind (line.next c) (line.cutNext cut c) a' := by
  cases behind with
  | @seek afterA _ text last =>
    rw [feed_hunt]
    by_cases here : [charA, charT] <:+ Assembly.put ⟨false, text⟩ c
    · obtain ⟨lastA, isT⟩ := last_of_suffix_put here
      obtain ⟨isA, uncut⟩ := last lastA
      have found : (Line.seek afterA).next c = .found [charA, charT] := if_pos ⟨isA, isT⟩
      have kept : (Line.seek afterA).cutNext cut c = false := by
        rw [Line.cutNext, uncut, ite_self]
      rw [if_pos here, found, kept]
      exact ⟨_, rfl, .collecting (cons_ne_nil _ _) (Nat.le_refl _) nofun⟩
    rw [if_neg here]
    refine ⟨_, rfl, ?_⟩
    rw [Line.next]
    split
    next => exact .hunting
    refine .seek fun lastA => ?_
    rw [getLast?_put] at lastA
    simp [Option.some.inj lastA, Line.cutNext]
  | @hunting text read =>
    rw [feed_hunt]
    split
    · refine ⟨_, rfl, .collecting (cons_ne_nil _ _) ?_ fun _ => ?_⟩
      · exact Nat.le_trans within.1 (by simp)
      · exact Nat.lt_of_le_of_lt within.1 (by simp)
    · exact ⟨_, rfl, .hunting⟩
  | @collecting text read _ some_byte no_more less =>
    have fits : read.length < bufferMaxSize - 1 :=
      Nat.lt_of_le_of_lt (Nat.le_trans no_more within.2) room
    rw [feed_collect, inside, put_of_room fits]
    refine ⟨_, rfl, .collecting (by simp) ?_ fun isCut => ?_⟩
    · simpa using no_more
    · simpa using less isCut

theorem Behind.close {text : List UInt8} (behind : Behind (.found text) cut a)
    (within : (Line.found text).Within size) (room : size < bufferMaxSize - 1)
    (ended : endsLine c = true) :
    (∃ a', a.feed c = .more a' ∧ Behind (.seek false) false a') ∨
      ∃ read, a.feed c = .line read ∧ read ≠ [] ∧ read.length ≤ text.length ∧
        (cut = true → read.length < text.length) := by
  cases behind with
  | @hunting _ read =>
    exact Or.inl ⟨_, feed_hunt_endsLine read ended, behind_put_endsLine read ended⟩
  | @collecting _ read _ some_byte no_more less =>
    have fits : read.length < bufferMaxSize - 1 :=
      Nat.lt_of_le_of_lt (Nat.le_trans no_more within.2) room
    refine Or.inr ⟨read, ?_, some_byte, no_more, less⟩
    rw [feed_collect, ended, put_of_room fits, dropLast_concat]
    rfl

variable {afterA : Bool}

theorem Behind.skip (behind : Behind (.seek afterA) cut a) (ended : endsLine c = true) :
    ∃ a', a.feed c = .more a' ∧ Behind (.seek false) false a' := by
  cases behind with
  | @seek _ _ text last =>
    exact ⟨_, feed_hunt_endsLine text ended, behind_put_endsLine text ended⟩

def weight (lines : List (List UInt8)) : Nat := lines.flatten.length + lines.length

theorem weight_cons (text : List UInt8) (lines : List (List UInt8)) :
    weight (text :: lines) = text.length + 1 + weight lines := by
  simp only [weight, flatten_cons, length_append, length_cons]
  omega

theorem weight_eq_zero {lines : List (List UInt8)} : weight lines = 0 ↔ lines = [] := by
  constructor
  · intro none
    exact eq_nil_of_length_eq_zero (Nat.eq_zero_of_add_eq_zero_left none)
  · rintro rfl
    rfl

/-- The lines have bytes, they are not more than expected, and fewer if something was lost. -/
structure Bounded (lines expected : List (List UInt8)) (lost : Prop) : Prop where
  nonempty : ∀ text ∈ lines, text ≠ []
  no_more : weight lines ≤ weight expected
  less : lost → weight lines < weight expected

theorem bounded_nil {lost : Prop} (kept : ¬ lost) : Bounded [] [] lost where
  nonempty _ mem := absurd mem not_mem_nil
  no_more := Nat.le_refl _
  less isLost := absurd isLost kept

variable {lines expected : List (List UInt8)} {lost : Prop} {read text : List UInt8}

theorem Bounded.drop (bounded : Bounded lines expected lost) (isLost : Prop) :
    Bounded lines (text :: expected) isLost where
  nonempty := bounded.nonempty
  no_more := by
    rw [weight_cons]
    exact Nat.le_add_left_of_le bounded.no_more
  less _ := by
    rw [weight_cons]
    exact Nat.lt_of_le_of_lt bounded.no_more (Nat.lt_add_of_pos_left (Nat.succ_pos _))

theorem Bounded.cons (bounded : Bounded lines expected lost) (some_byte : read ≠ [])
    (no_more : read.length ≤ text.length) (less : cut = true → read.length < text.length) :
    Bounded (read :: lines) (text :: expected) (cut = true ∨ lost) where
  nonempty := forall_mem_cons.mpr ⟨some_byte, bounded.nonempty⟩
  no_more := by
    rw [weight_cons, weight_cons]
    exact Nat.add_le_add (Nat.succ_le_succ no_more) bounded.no_more
  less := by
    rw [weight_cons, weight_cons]
    rintro (isCut | isLost)
    · exact Nat.add_lt_add_of_lt_of_le (Nat.succ_lt_succ (less isCut)) bounded.no_more
    · exact Nat.add_lt_add_of_le_of_lt (Nat.succ_le_succ no_more) (bounded.less isLost)

variable {searched : Nat} {syms : List Sym} (stream : List UInt8)

theorem collected_bounded (behind : Behind line cut a) (within : line.Within size)
    (fit : linesFitFrom size (bytesOf syms)) :
    Bounded (collected a syms) (commandLinesFrom line (bytesOf syms)) (cutsFrom line cut syms) := by
  induction syms generalizing line cut a size with
  | nil => cases line <;> exact bounded_nil id
  | cons sym syms ih =>
    cases sym with
    | dry => exact ih behind.dry within fit
    | byte c =>
      by_cases willEnd : Ended (.byte c :: syms)
      · have room := size_lt_of_linesFitFrom fit willEnd
        rw [bytesOf, linesFitFrom] at fit
        cases ended : endsLine c with
        | false =>
          rw [ended] at fit
          obtain ⟨a', fed, behind'⟩ := behind.next within room ended
          have rest := ih behind' (within.next c) fit
          rw [collected_more fed, bytesOf]
          cases line with
          | seek afterA =>
            rw [commandLinesFrom, cutsFrom, ended]
            exact rest
          | found text =>
            rw [commandLinesFrom, cutsFrom, ended]
            exact rest
        | true =>
          rw [ended] at fit
          rw [bytesOf]
          cases line with
          | seek afterA =>
            obtain ⟨a', fed, behind'⟩ := behind.skip ended
            rw [collected_more fed, commandLinesFrom, cutsFrom, ended]
            exact ih behind' (within_seek_false 0) fit.2
          | found text =>
            rw [commandLinesFrom, cutsFrom, ended]
            rcases behind.close within room ended with ⟨a', fed, behind'⟩ |
              ⟨read, fed, some_byte, no_more, less⟩
            · rw [collected_more fed]
              exact (ih behind' (within_seek_false 0) fit.2).drop _
            · rw [collected_line fed]
              exact (ih (behind_start false) (within_seek_false 0) fit.2).cons
                some_byte no_more less
      · have unended := unended_of_not_ended willEnd
        rw [unended.collected a, unended.commandLinesFrom]
        exact bounded_nil (unended.not_cutsFrom line cut)

/-! ## A split that cuts no prefix gives all command lines -/

/-- What the server has in its buffer when the search never fills it: it searches behind an `A`
exactly if it has the letter, and it collects the text unless the prefix was cut. -/
inductive Exact : Line → Bool → Nat → Assembly → Prop
  | seek {afterA cut : Bool} {searched : Nat} {text : List UInt8} (fits : text.length ≤ searched)
      (last : text.getLast? = some charA ↔ afterA = true ∧ cut = false) :
      Exact (.seek afterA) cut searched ⟨false, text⟩
  | collecting {text : List UInt8} {searched : Nat} : Exact (.found text) false searched ⟨true, text⟩
  | lost {text : List UInt8} {searched : Nat} {a : Assembly} : Exact (.found text) true searched a

theorem exact_start (searched : Nat) : Exact (.seek false) false searched ⟨false, []⟩ :=
  .seek (Nat.zero_le _) (by simp)

theorem Exact.dry (here : Exact line cut searched a) : Exact line (line.cutDry cut) 0 a.settle := by
  cases here with
  | seek fits last => exact .seek (Nat.le_refl 0) (by simp [Line.cutDry])
  | collecting => exact .collecting
  | lost => exact .lost

theorem Exact.search (here : Exact (.seek afterA) cut searched a)
    (room : searched < bufferMaxSize - 1) :
    ∃ a', a.feed c = .more a' ∧
      Exact (Line.next (.seek afterA) c) (Line.cutNext (.seek afterA) cut c) (searched + 1) a' := by
  cases here with
  | @seek _ _ _ text fits last =>
    rw [feed_hunt, put_of_room (Nat.lt_of_le_of_lt fits room)]
    by_cases both : afterA = true ∧ c = charT
    · have found : Line.next (.seek afterA) c = .found [charA, charT] := if_pos both
      have kept : Line.cutNext (.seek afterA) cut c = cut := by
        rw [both.2]
        rfl
      rw [found, kept]
      cases cut with
      | false =>
        rw [if_pos ((charA_charT_suffix text).mpr ⟨last.mpr ⟨both.1, rfl⟩, both.2⟩)]
        exact ⟨_, rfl, .collecting⟩
      | true =>
        split
        · exact ⟨_, rfl, .lost⟩
        · exact ⟨_, rfl, .lost⟩
    · have searching : Line.next (.seek afterA) c = .seek _ := if_neg both
      have not_here : ¬ [charA, charT] <:+ text ++ [c] := by
        intro here
        obtain ⟨lastA, isT⟩ := (charA_charT_suffix text).mp here
        exact both ⟨(last.mp lastA).1, isT⟩
      rw [searching, if_neg not_here]
      refine ⟨_, rfl, .seek (by simpa using fits) ?_⟩
      by_cases isA : c = charA
      · simp [isA, Line.cutNext]
      · simp [isA]

theorem Exact.skip (here : Exact (.seek afterA) cut searched a)
    (room : searched < bufferMaxSize - 1) (ended : endsLine c = true) :
    ∃ a', a.feed c = .more a' ∧ Exact (.seek false) false (searched + 1) a' := by
  cases here with
  | @seek _ _ _ text fits last =>
    refine ⟨_, feed_hunt_endsLine text ended, ?_⟩
    rw [put_of_room (Nat.lt_of_le_of_lt fits room)]
    refine .seek (by simpa using fits) ?_
    simp [ne_charA_of_endsLine ended]

theorem collected_exact (here : Exact line cut searched a) (within : line.Within size)
    (fit : linesFitFrom size (bytesOf syms)) (search : searchFitsFrom line searched syms)
    (uncut : ¬ cutsFrom line cut syms) :
    collected a syms = commandLinesFrom line (bytesOf syms) := by
  induction syms generalizing line cut a size searched with
  | nil => cases line <;> rfl
  | cons sym syms ih =>
    cases sym with
    | dry =>
      exact ih here.dry within fit search uncut
    | byte c =>
      by_cases willEnd : Ended (.byte c :: syms)
      · have room := size_lt_of_linesFitFrom fit willEnd
        rw [bytesOf, linesFitFrom] at fit
        rw [bytesOf]
        cases line with
        | seek afterA =>
          rw [searchFitsFrom] at search
          rw [cutsFrom] at uncut
          rw [commandLinesFrom]
          cases ended : endsLine c with
          | false =>
            rw [ended] at fit search uncut
            obtain ⟨a', fed, here'⟩ := here.search (search.1 willEnd)
            rw [collected_more fed]
            exact ih here' (within.next c) fit search.2 uncut
          | true =>
            rw [ended] at fit search uncut
            obtain ⟨a', fed, here'⟩ := here.skip (search.1 willEnd) ended
            rw [collected_more fed]
            exact ih here' (within_seek_false 0) fit.2 search.2 uncut
        | found text =>
          cases here with
          | lost => exact absurd (cutsFrom_of_ended willEnd) uncut
          | collecting =>
            have fed := feed_collect text c
            rw [put_of_room (Nat.lt_of_le_of_lt within.2 room)] at fed
            rw [searchFitsFrom] at search
            rw [cutsFrom] at uncut
            rw [commandLinesFrom]
            cases ended : endsLine c with
            | false =>
              rw [ended] at fed fit search uncut
              rw [collected_more fed]
              exact ih .collecting (within.next c) fit search uncut
            | true =>
              rw [ended, dropLast_concat] at fed
              rw [ended] at fit search uncut
              rw [collected_line fed]
              exact congrArg _ (ih (exact_start 0) (within_seek_false 0) fit.2 search
                fun cuts => uncut (Or.inr cuts))
      · have unended := unended_of_not_ended willEnd
        rw [unended.collected a, unended.commandLinesFrom]

/-! ## The stream at once, byte by byte, and line by line -/

theorem not_cutsFrom_at_once (line : Line) (stream : List UInt8) :
    ¬ cutsFrom line false (stream.map .byte ++ [.dry]) := by
  induction stream generalizing line with
  | nil => exact id
  | cons c rest ih =>
    rw [map_cons, cons_append]
    cases line with
    | seek afterA =>
      have kept : Line.cutNext (.seek afterA) false c = false := ite_self _
      rw [cutsFrom, kept]
      split
      · exact ih _
      · exact ih _
    | found text =>
      rw [cutsFrom]
      split
      · rintro (isCut | cuts)
        · exact Bool.noConfusion isCut
        · exact ih _ cuts
      · exact ih _

theorem searchFitsFrom_of_at_once (search : searchFitsFrom line size ((bytesOf syms).map .byte))
    (no_more : searched ≤ size) : searchFitsFrom line searched syms := by
  induction syms generalizing line size searched with
  | nil => trivial
  | cons sym syms ih =>
    cases sym with
    | dry =>
      exact ih search (Nat.zero_le size)
    | byte c =>
      cases line with
      | seek afterA =>
        refine ⟨fun willEnd => ?_, ih search.2 (Nat.succ_le_succ no_more)⟩
        exact Nat.lt_of_le_of_lt no_more (search.1 (by simpa [Ended, bytesOf] using willEnd))
      | found text =>
        exact ih search (Nat.le_refl 0)

def singly (stream : List UInt8) : List Sym := stream.flatMap fun c => [.byte c, .dry]

theorem bytesOf_singly : bytesOf (singly stream) = stream := by
  induction stream with
  | nil => rfl
  | cons c rest ih =>
    rw [singly, flatMap_cons, ← singly, bytesOf_append, ih]
    rfl

theorem collected_singly : collected ⟨false, []⟩ (singly stream ++ [.dry]) = [] := by
  induction stream with
  | nil => rfl
  | cons c rest ih => exact ih

def linewise (stream : List UInt8) : List Sym :=
  stream.flatMap fun c => if endsLine c then [.byte c, .dry] else [.byte c]

theorem linewise_cons (c : UInt8) (rest : List UInt8) :
    linewise (c :: rest) =
      if endsLine c then .byte c :: .dry :: linewise rest else .byte c :: linewise rest := by
  rw [linewise, flatMap_cons]
  split
  · rfl
  · rfl

theorem bytesOf_linewise : bytesOf (linewise stream) = stream := by
  induction stream with
  | nil => rfl
  | cons c rest ih =>
    rw [linewise_cons]
    split
    · rw [bytesOf, bytesOf, ih]
    · rw [bytesOf, ih]

theorem searchFitsFrom_linewise {stream : List UInt8} (fit : linesFitFrom size stream)
    (no_more : searched ≤ size) : searchFitsFrom line searched (linewise stream ++ [.dry]) := by
  induction stream generalizing line size searched with
  | nil => trivial
  | cons c rest ih =>
    have room : (∃ d ∈ c :: rest, endsLine d = true) → searched < bufferMaxSize - 1 :=
      fun willEnd => Nat.lt_of_le_of_lt no_more (size_lt_of_linesFitFrom fit willEnd)
    rw [linesFitFrom] at fit
    rw [linewise_cons]
    cases ended : endsLine c with
    | true =>
      rw [ended] at fit
      have later : searchFitsFrom (.seek false) 0 _ :=
        ih fit.2 (Nat.le_refl 0)
      cases line with
      | seek afterA =>
        refine ⟨fun _ => room ⟨c, mem_cons_self, ended⟩, ?_⟩
        rw [ended]
        exact later
      | found text =>
        simp only [if_true, cons_append, searchFitsFrom, ended]
        exact later
    | false =>
      rw [ended] at fit
      cases line with
      | seek afterA =>
        refine ⟨fun willEnd => room ?_, ?_⟩
        · simpa [Ended, bytesOf, bytesOf_linewise] using willEnd
        · exact ih fit (Nat.succ_le_succ no_more)
      | found text =>
        exact ih fit (Nat.zero_le _)

theorem not_cutsFrom_linewise (uncut : cut = false ∨ line = .seek false) :
    ¬ cutsFrom line cut (linewise stream ++ [.dry]) := by
  induction stream generalizing line cut with
  | nil => exact id
  | cons c rest ih =>
    rw [linewise_cons]
    cases ended : endsLine c with
    | true =>
      have later : ¬ cutsFrom _ true _ := ih (Or.inr rfl)
      simp only [if_true, cons_append]
      cases line with
      | seek afterA =>
        rw [cutsFrom, ended]
        exact later
      | found text =>
        rw [cutsFrom, ended]
        rintro (isCut | cuts)
        · rcases uncut with notCut | seeking
          · rw [isCut] at notCut
            exact Bool.noConfusion notCut
          · exact Line.noConfusion seeking
        · exact later cuts
    | false =>
      simp only [Bool.false_eq_true, if_false, cons_append]
      cases line with
      | seek afterA =>
        rw [cutsFrom, ended]
        apply ih
        rcases uncut with rfl | seeking
        · exact Or.inl (ite_self _)
        cases seeking
        by_cases isA : c = charA
        · exact Or.inl (if_pos isA)
        · exact Or.inr (by simp [Line.next, isA])
      | found text =>
        rw [cutsFrom, ended]
        apply ih
        rcases uncut with rfl | seeking
        · exact Or.inl rfl
        · exact Line.noConfusion seeking

/-! ## What the server dispatches -/

variable {stream : List UInt8} {chunks : List (List UInt8)}

section

variable (fit : LinesFit stream)

include fit

section

variable (split : chunks.flatten = stream)

include split

theorem bounded_marks :
    Bounded (collected ⟨false, []⟩ (marks chunks)) (commandLines stream) (CutsPrefix chunks) := by
  have whole : bytesOf _ = stream := (bytesOf_marks chunks).trans split
  have fit' : linesFitFrom 0 _ := whole.symm ▸ fit
  have bounded := collected_bounded (behind_start false) (within_seek_false 0) fit'
  rw [whole] at bounded
  exact bounded

theorem dispatched_eq_collected : dispatched chunks = collected ⟨false, []⟩ (marks chunks) :=
  dispatched_eq chunks (bounded_marks fit split).nonempty

theorem dispatched_bounded :
    Bounded (dispatched chunks) (commandLines stream) (CutsPrefix chunks) := by
  rw [dispatched_eq_collected fit split]
  exact bounded_marks fit split

theorem dispatched_exact (search : searchFitsFrom (.seek false) 0 (marks chunks))
    (uncut : ¬ CutsPrefix chunks) :
    dispatched chunks = commandLines stream := by
  have whole : bytesOf _ = stream := (bytesOf_marks chunks).trans split
  rw [dispatched_eq_collected fit split,
    collected_exact (exact_start 0) (within_seek_false 0) (whole.symm ▸ fit) search uncut, whole]
  rfl

end

theorem exists_dispatched_all :
    ∃ chunks, chunks.flatten = stream ∧ dispatched chunks = commandLines stream := by
  obtain ⟨chunks, marked, whole⟩ := exists_marks _
  rw [bytesOf_linewise] at whole
  refine ⟨chunks, whole, dispatched_exact fit whole ?_ ?_⟩
  · rw [marked]
    exact searchFitsFrom_linewise fit (Nat.le_refl 0)
  · rw [CutsPrefix, marked]
    exact not_cutsFrom_linewise stream (Or.inl rfl)

theorem exists_dispatched_nil : ∃ chunks, chunks.flatten = stream ∧ dispatched chunks = [] := by
  obtain ⟨chunks, marked, whole⟩ := exists_marks _
  rw [bytesOf_singly] at whole
  refine ⟨chunks, whole, ?_⟩
  rw [dispatched_eq_collected fit whole, marked]
  exact collected_singly stream

end

theorem flatten_at_once (stream : List UInt8) : [stream].flatten = stream := by
  simp

theorem dispatched_at_once (fit : LinesFit stream) (search : SearchFits stream) :
    dispatched [stream] = commandLines stream := by
  have marked : marks [stream] = stream.map .byte ++ [.dry] := by simp [marks]
  refine dispatched_exact fit (flatten_at_once stream) ?_ ?_
  · refine searchFitsFrom_of_at_once ?_ (Nat.le_refl 0)
    rw [bytesOf_marks, flatten_at_once]
    exact search
  · rw [CutsPrefix, marked]
    exact not_cutsFrom_at_once _ stream

/-- **Which streams are dispatched alike however they are split**, when every line fits into the
buffer: those without a command line. -/
theorem same_lines_iff (stream : List UInt8) (fit : LinesFit stream) :
    ((∀ chunks : List (List UInt8), chunks.flatten = stream →
        dispatched chunks = dispatched [stream]) ↔ commandLines stream = []) ∧
      (SearchFits stream → dispatched [stream] = commandLines stream ∧
        ∀ chunks : List (List UInt8), chunks.flatten = stream →
          (dispatched chunks = dispatched [stream] ↔ ¬ CutsPrefix chunks)) := by
  constructor
  · constructor
    · intro alike
      obtain ⟨all, all_split, all_lines⟩ := exists_dispatched_all fit
      obtain ⟨none, none_split, no_lines⟩ := exists_dispatched_nil fit
      calc commandLines stream
          = dispatched all := all_lines.symm
        _ = dispatched [stream] := alike all all_split
        _ = dispatched none := (alike none none_split).symm
        _ = [] := no_lines
    intro no_command chunks split
    have nothing : ∀ portions : List _, portions.flatten = stream → dispatched portions = [] := by
      intro portions whole
      have no_more := (dispatched_bounded fit whole).no_more
      rw [no_command] at no_more
      exact weight_eq_zero.mp (Nat.le_zero.mp no_more)
    rw [nothing chunks split, nothing [stream] (flatten_at_once stream)]
  · intro search
    have at_once := dispatched_at_once fit search
    refine ⟨at_once, fun chunks split => ?_⟩
    rw [at_once]
    constructor
    · intro alike cuts
      have less := (dispatched_bounded fit split).less cuts
      rw [alike] at less
      exact Nat.lt_irrefl _ less
    · refine dispatched_exact fit split (searchFitsFrom_of_at_once ?_ (Nat.le_refl 0))
      rw [bytesOf_marks, split]
      exact search

/-- A command whose end comes with the second notification is dispatched as at once. -/
theorem same_lines_iff_whole_prefix :
    LinesFit [charA, charT, 13] ∧
      dispatched [[charA, charT], [13]] = dispatched [[charA, charT, 13]] := by
  have fit : LinesFit [charA, charT, 13] := by decide
  have search : SearchFits [charA, charT, 13] := by decide
  refine ⟨fit, (((same_lines_iff _ fit).2 search).2 [[charA, charT], [13]] rfl).mpr ?_⟩
  decide

/-- **The command `AT` is lost** when a notification ends behind its first letter. -/
theorem prefix_cut_in_two :
    LinesFit [charA, charT, 13] ∧ [[charA], [charT, 13]].flatten = [charA, charT, 13] ∧
      dispatched [[charA, charT, 13]] = [[charA, charT]] ∧
      dispatched [[charA], [charT, 13]] = [] := by
  refine ⟨by decide, rfl, ?_, ?_⟩
  · decide
  · decide

end Phy6212.AtServer
