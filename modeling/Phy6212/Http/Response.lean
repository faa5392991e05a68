import Phy6212.Http.Url

/-!
# Waiting for a response

`http_wait_resp` collects what the network delivers, looks for the end of the header and the length
after each read, and reads until the body is complete.
-/

namespace Phy6212.Http

open List CLib

def bufferSize : Nat := 2048

def blankLine : List UInt8 := [0x0D, 0x0A, 0x0D, 0x0A]

def contentLength : List UInt8 :=
  [0x43, 0x6F, 0x6E, 0x74, 0x65, 0x6E, 0x74, 0x2D, 0x4C, 0x65, 0x6E, 0x67, 0x74, 0x68, 0x3A, 0x20]

def httpVersion : List UInt8 := [0x48, 0x54, 0x54, 0x50, 0x2F, 0x31, 0x2E, 0x31]

/-- `http_parse_head`: the length of the content and the end of the header, or nothing while there
is no blank line. -/
def httpParseHead (buffer : List UInt8) : Except Fault (Option (Int × Nat)) := do
  let text ← readText buffer 0
  match strstr blankLine text with
  | none => return none
  | some blank =>
    let head := blank + blankLine.length
    match strstr contentLength text with
    | none =>
      match strstr httpVersion text with
      | none => throw .nullPointer
      | some version =>
        let code := atoi (text.drop (version + httpVersion.length))
        if code ≠ 206 ∧ code ≠ 200 then return some (-1, head)
        return some ((strtol 16 (text.drop head)).1, head)
    | some content =>
      let value := text.drop (content + contentLength.length)
      let (length, endpoint) := strtol 10 value
      -- at the end of the string there is its zero byte
      if value.getD endpoint 0 ≠ 0x0D then return some (-1, head)
      return some (length, head)

structure Reception where
  buffer : List UInt8
  recvLen : Nat
  deriving DecidableEq, Repr

def Reception.empty : Reception := ⟨replicate bufferSize 0, 0⟩

/-- What `net_read` delivers is behind what is there. -/
def Reception.read (s : Reception) (bytes : List UInt8) : Except Fault Reception :=
  if s.recvLen + bytes.length ≤ bufferSize then
    .ok ⟨s.buffer.take s.recvLen ++ bytes ++ s.buffer.drop (s.recvLen + bytes.length),
      s.recvLen + bytes.length⟩
  else .error .outOfBounds

/-- Where the first loop ends: with -1, or with the length and the end of the header, what has
been received and the reads to come. -/
inductive Stage where
  | failed
  | head (contentLen : Int) (headEnd : Nat) (s : Reception) (reads : List (List UInt8))
  deriving DecidableEq, Repr

/-- The first loop is left with a full buffer when the header has ended. -/
def leave (headEnd : Option Nat) (s : Reception) (reads : List (List UInt8)) : Option Stage :=
  if bufferSize ≤ s.recvLen then headEnd.map fun headEnd => .head 0 headEnd s reads else none

/-- The first loop, with the value of `*head_end`. -/
def waitHead (headEnd : Option Nat) (s : Reception) : List (List UInt8) → Except Fault Stage
  | [] => .ok ((leave headEnd s []).getD .failed)
  | bytes :: reads =>
    match leave headEnd s (bytes :: reads) with
    | some stage => .ok stage
    | none => do
        let s := if bufferSize ≤ s.recvLen then Reception.empty else s
        if bytes = [] then return .failed
        let s ← s.read bytes
        match ← httpParseHead s.buffer with
        | none => waitHead none s reads
        | some (length, head) =>
          if length = 0 then waitHead (some head) s reads
          else if length < 0 then return .failed
          else return .head length head s reads

/-- What `http_wait_resp` returns: -1, or the length of the content with the end of the header. -/
inductive WaitResult where
  | failed
  | received (contentLen : Int) (headEnd : Nat) (buffer : List UInt8) (reads : List (List UInt8))
  deriving DecidableEq, Repr

def waitBody (contentLen : Int) (headEnd : Nat) (s : Reception) :
    List (List UInt8) → Except Fault WaitResult
  | [] =>
    if s.recvLen < bufferSize ∧ ¬ contentLen ≤ (s.recvLen : Int) - headEnd then .ok .failed
    else .ok (.received contentLen headEnd s.buffer [])
  | bytes :: reads =>
    if s.recvLen < bufferSize ∧ ¬ contentLen ≤ (s.recvLen : Int) - headEnd then
      if bytes = [] then .ok .failed
      else
        match s.read bytes with
        | .error fault => .error fault
        | .ok s => waitBody contentLen headEnd s reads
    else .ok (.received contentLen headEnd s.buffer (bytes :: reads))

def httpWaitResp (reads : List (List UInt8)) : Except Fault WaitResult := do
  match ← waitHead none Reception.empty reads with
  | .failed => return .failed
  | .head contentLen headEnd s reads =>
    if (bufferSize : Int) - headEnd < contentLen then return .failed
    waitBody contentLen headEnd s reads

/-- A response: a header that ends with its first blank line and has one field for the length
of the body, and a body of this length. -/
structure Response where
  /-- The header up to the field for the length. -/
  before : List UInt8
  /-- The length of the body. -/
  digits : List UInt8
  /-- The header behind the length and its carriage return. -/
  after : List UInt8
  body : List UInt8
  text : 0 ∉ before ++ (contentLength ++ (digits ++ 0x0D :: after))
  ends : ∃ lines, before ++ (contentLength ++ (digits ++ 0x0D :: after)) = lines ++ blankLine
  first : ∀ lines more,
    before ++ (contentLength ++ (digits ++ 0x0D :: after)) = lines ++ (blankLine ++ more) → more = []
  once : ∀ other, OccursAt contentLength other (before ++ (contentLength ++ (digits ++ 0x0D :: after))) →
    other = before.length
  some_ : digits ≠ []
  decimal : ∀ byte ∈ digits, isDigit 10 byte = true
  counts : numeral 10 digits = body.length
  positive : 0 < body.length
  fits : (before ++ (contentLength ++ (digits ++ 0x0D :: after))).length + body.length < bufferSize

def Response.header (r : Response) : List UInt8 :=
  r.before ++ (contentLength ++ (r.digits ++ 0x0D :: r.after))

def Response.bytes (r : Response) : List UInt8 := r.header ++ r.body

def Reception.holding (got : List UInt8) : Reception :=
  ⟨got ++ replicate (bufferSize - got.length) 0, got.length⟩

variable {got : List UInt8} {bytes : List UInt8}

theorem read_holding (room : (got ++ bytes).length ≤ bufferSize) :
    (Reception.holding got).read bytes = .ok (Reception.holding (got ++ bytes)) := by
  rw [length_append] at room
  have rest : (got ++ replicate (bufferSize - got.length) 0).drop
      (got.length + bytes.length) =
        replicate (bufferSize - (got.length + bytes.length)) 0 := by
    rw [drop_append, drop_of_length_le (Nat.le_add_right _ _), nil_append,
      drop_replicate]
    congr 1
    omega
  have fits : (Reception.holding got).recvLen + bytes.length ≤ bufferSize := room
  rw [Reception.read, if_pos fits]
  simp only [Reception.holding, take_left, rest, length_append]

theorem readText_holding (room : got.length < bufferSize) :
    readText (Reception.holding got).buffer 0 = .ok (got.takeWhile (· ≠ 0)) := by
  obtain ⟨more, left⟩ := Nat.exists_eq_add_of_lt room
  have zeros : replicate (bufferSize - got.length) (0 : UInt8) = 0 :: replicate more 0 := by
    rw [left, Nat.add_assoc, Nat.add_sub_cancel_left, replicate_succ]
  have read := textAt_nul [] got (replicate more 0)
  rw [nil_append, ← zeros] at read
  rw [readText, Reception.holding]
  exact read ▸ rfl

variable (r : Response)

theorem Response.zero_not_mem : 0 ∉ r.header := r.text

theorem Response.length_header :
    ∃ lines, r.header = lines ++ blankLine ∧ r.header.length = lines.length + 4 := by
  obtain ⟨lines, ends⟩ := r.ends
  refine ⟨lines, ends, ?_⟩
  rw [Response.header, ends, length_append]
  rfl

theorem Response.strstr_blankLine : strstr blankLine r.header = some (r.header.length - 4) := by
  obtain ⟨lines, ends, length⟩ := r.length_header
  apply strstr_of_only
  · refine ⟨lines, [], ?_, by omega⟩
    exact ends
  rintro other ⟨before, more, occurs, rfl⟩
  have last : more = [] := r.first before more occurs
  rw [occurs, last, append_nil, length_append]
  exact (Nat.add_sub_cancel before.length 4).symm

theorem Response.strstr_contentLength : strstr contentLength r.header = some r.before.length :=
  strstr_of_only ⟨r.before, _, rfl, rfl⟩ r.once

variable {more part : List UInt8}

theorem Response.strstr_part (split : r.header = part ++ more)
    (incomplete : part.length < r.header.length) : strstr blankLine part = none := by
  cases found : strstr blankLine part with
  | none => rfl
  | some place =>
    have whole := strstr_append_right found more
    rw [← split, r.strstr_blankLine, Option.some.injEq] at whole
    obtain ⟨before, after, rfl, there⟩ := strstr_spec found
    rw [length_append, length_append] at incomplete
    have four : blankLine.length = 4 := rfl
    omega

theorem Response.drop_contentLength (more : List UInt8) :
    (r.header ++ more).drop (r.before.length + contentLength.length) =
      r.digits ++ 0x0D :: (r.after ++ more) := by
  have split : r.header ++ more =
      (r.before ++ contentLength) ++ (r.digits ++ 0x0D :: (r.after ++ more)) := by
    simp [Response.header]
  rw [split, ← length_append, drop_left]

theorem Response.strtol_digits (more : List UInt8) :
    strtol 10 (r.digits ++ 0x0D :: more) = ((r.body.length : Int), r.digits.length) := by
  have stops : ∀ byte ∈ (0x0D :: more).head?, isDigit 10 byte = false := by
    intro byte first
    cases first
    rfl
  have fits : saturate r.body.length = r.body.length := by
    have small := r.fits
    unfold bufferSize at small
    unfold saturate longMax
    omega
  rw [CLib.strtol_digits r.some_ r.decimal stops, r.counts, fits]

theorem Response.parse_complete (room : (r.header ++ part).length < bufferSize) :
    httpParseHead (Reception.holding (r.header ++ part)).buffer =
      .ok (some ((r.body.length : Int), r.header.length)) := by
  have blank := strstr_append_right r.strstr_blankLine (part.takeWhile (· ≠ 0))
  have content := strstr_append_right r.strstr_contentLength (part.takeWhile (· ≠ 0))
  have long : r.header.length - 4 + blankLine.length = r.header.length := by
    obtain ⟨lines, -, length⟩ := r.length_header
    rw [length]
    rfl
  have return_ : (r.digits ++ 0x0D :: (r.after ++ part.takeWhile (· ≠ 0))).getD r.digits.length 0 =
      0x0D := by
    simp
  unfold httpParseHead
  rw [readText_holding room, takeWhile_text r.zero_not_mem]
  simp only [bind, Except.bind, blank, content, r.drop_contentLength, r.strtol_digits, return_, long]
  rfl

theorem Response.parse_incomplete (split : r.header = part ++ more)
    (incomplete : part.length < r.header.length) :
    httpParseHead (Reception.holding part).buffer = .ok none := by
  have room : part.length < bufferSize := by
    have small : r.header.length + r.body.length < bufferSize := r.fits
    omega
  have text : 0 ∉ part := by
    intro member
    apply r.zero_not_mem
    rw [split]
    exact mem_append_left more member
  have whole := takeWhile_text text []
  rw [takeWhile_nil, append_nil] at whole
  unfold httpParseHead
  rw [readText_holding room, whole]
  simp only [bind, Except.bind, r.strstr_part split incomplete]
  rfl

theorem parse_holding (split : r.bytes = got ++ more) :
    httpParseHead (Reception.holding got).buffer =
      .ok (if got.length < r.header.length then none
        else some ((r.body.length : Int), r.header.length)) := by
  have small : r.header.length + r.body.length < bufferSize := r.fits
  by_cases incomplete : got.length < r.header.length
  · rw [if_pos incomplete]
    obtain ⟨rest, header⟩ : ∃ rest, r.header = got ++ rest := by
      have shorter : got <+: r.header :=
        prefix_of_prefix_length_le ⟨more, split.symm⟩ ⟨r.body, rfl⟩ (Nat.le_of_lt incomplete)
      obtain ⟨rest, header⟩ := shorter
      exact ⟨rest, header.symm⟩
    exact r.parse_incomplete header incomplete
  rw [if_neg incomplete]
  obtain ⟨part, header⟩ : r.header <+: got :=
    prefix_of_prefix_length_le ⟨r.body, rfl⟩ ⟨more, split.symm⟩ (Nat.le_of_not_lt incomplete)
  subst header
  apply r.parse_complete
  have lengths := congrArg length split
  simp only [Response.bytes, length_append] at lengths ⊢
  omega

variable {r : Response} {reads : List (List UInt8)}

theorem leave_none (s : Reception) (reads : List (List UInt8)) : leave none s reads = none := by
  unfold leave
  split <;> rfl

theorem waitHead_cons (some_ : bytes ≠ []) (room : (got ++ bytes).length < bufferSize)
    (reads : List (List UInt8)) :
    waitHead none (Reception.holding got) (bytes :: reads) =
      (httpParseHead (Reception.holding (got ++ bytes)).buffer).bind fun parsed =>
        match parsed with
        | none => waitHead none (Reception.holding (got ++ bytes)) reads
        | some (length, head) =>
          if length = 0 then waitHead (some head) (Reception.holding (got ++ bytes)) reads
          else if length < 0 then .ok .failed
          else .ok (.head length head (Reception.holding (got ++ bytes)) reads) := by
  have notFull : ¬ bufferSize ≤ (Reception.holding got).recvLen := by
    rw [length_append] at room
    exact Nat.not_le_of_lt (Nat.lt_of_le_of_lt (Nat.le_add_right _ _) room)
  rw [waitHead, leave_none]
  simp only [if_neg notFull, if_neg some_, read_holding (Nat.le_of_lt room), bind, Except.bind]
  rfl

theorem waitHead_holding (reads : List (List UInt8)) :
    ∀ got, r.bytes = got ++ reads.flatten → (∀ bytes ∈ reads, bytes ≠ []) →
      got.length < r.header.length →
      ∃ got' rest, waitHead none (Reception.holding got) reads =
          .ok (.head r.body.length r.header.length (Reception.holding got') rest) ∧
        r.bytes = got' ++ rest.flatten ∧ (∀ bytes ∈ rest, bytes ≠ []) ∧
        r.header.length ≤ got'.length := by
  have small : r.header.length + r.body.length < bufferSize := r.fits
  have positive : 0 < r.body.length := r.positive
  induction reads with
  | nil =>
    intro got split _ incomplete
    have lengths := congrArg length split
    simp only [Response.bytes, flatten_nil, append_nil, length_append] at lengths
    omega
  | cons bytes reads ih =>
    intro got split nonempty incomplete
    have next : r.bytes = (got ++ bytes) ++ reads.flatten := by
      rw [split, flatten_cons, append_assoc]
    have room : (got ++ bytes).length < bufferSize := by
      have lengths := congrArg length next
      simp only [Response.bytes, length_append] at lengths ⊢
      omega
    have rest : ∀ bytes ∈ reads, bytes ≠ [] := fun other member =>
      nonempty other (mem_cons_of_mem _ member)
    rw [waitHead_cons (nonempty bytes mem_cons_self) room, parse_holding r next]
    by_cases still : (got ++ bytes).length < r.header.length
    · rw [if_pos still]
      exact ih _ next rest still
    rw [if_neg still]
    refine ⟨got ++ bytes, reads, ?_, next, rest, Nat.le_of_not_lt still⟩
    simp only [Except.bind]
    rw [if_neg (by omega), if_neg (by omega)]

theorem waitBody_holding (reads : List (List UInt8)) :
    ∀ got, r.bytes = got ++ reads.flatten → (∀ bytes ∈ reads, bytes ≠ []) →
      r.header.length ≤ got.length →
      waitBody r.body.length r.header.length (Reception.holding got) reads =
        .ok (.received r.body.length r.header.length (Reception.holding r.bytes).buffer []) := by
  have small : r.header.length + r.body.length < bufferSize := r.fits
  induction reads with
  | nil =>
    intro got split _ complete
    rw [flatten_nil, append_nil] at split
    have done : ¬ ((Reception.holding got).recvLen < bufferSize ∧
        ¬ r.body.length ≤ ((Reception.holding got).recvLen : Int) - r.header.length) := by
      have lengths := congrArg length split
      simp only [Response.bytes, length_append] at lengths
      simp only [Reception.holding]
      omega
    rw [waitBody, if_neg done, split]
  | cons bytes reads ih =>
    intro got split nonempty complete
    have some_ : bytes ≠ [] := nonempty bytes mem_cons_self
    have next : r.bytes = (got ++ bytes) ++ reads.flatten := by
      rw [split, flatten_cons, append_assoc]
    have lengths := congrArg length next
    have more : 0 < bytes.length := length_pos_of_ne_nil some_
    simp only [Response.bytes, length_append] at lengths
    have waits : (Reception.holding got).recvLen < bufferSize ∧
        ¬ r.body.length ≤ ((Reception.holding got).recvLen : Int) - r.header.length := by
      simp only [Reception.holding]
      omega
    have room : (got ++ bytes).length ≤ bufferSize := by
      rw [length_append]
      omega
    rw [waitBody, if_pos waits, if_neg some_, read_holding room]
    apply ih _ next
    · intro other member
      exact nonempty other (mem_cons_of_mem _ member)
    · rw [length_append]
      omega

def statusLine : List UInt8 :=
  [0x48, 0x54, 0x54, 0x50, 0x2F, 0x31, 0x2E, 0x31, 0x20, 0x32, 0x30, 0x30, 0x20, 0x4F, 0x4B, 0x0D, 0x0A]

def okResponse : Response where
  before := statusLine
  digits := [0x32]
  after := [0x0A, 0x0D, 0x0A]
  body := [0x00, 0x41]
  text := by decide
  ends := ⟨statusLine ++ contentLength ++ [0x32], by decide⟩
  first := by
    intro lines more occurs
    have places : ∀ place < 39, blankLine.isPrefixOf ((statusLine ++ (contentLength ++ ([0x32] ++
        0x0D :: [0x0A, 0x0D, 0x0A]))).drop place) = true → place = 34 := by
      decide
    obtain ⟨inside, there⟩ := OccursAt.isPrefixOf_drop ⟨lines, more, occurs, rfl⟩
    have place := places lines.length (Nat.lt_of_lt_of_le inside (by decide)) there
    have lengths := congrArg length occurs
    simp only [length_append] at lengths
    have total : 38 = lines.length + (4 + more.length) := lengths
    exact length_eq_zero_iff.mp (by omega)
  once := by
    intro other occurs
    have places : ∀ place < 39, contentLength.isPrefixOf ((statusLine ++ (contentLength ++ ([0x32] ++
        0x0D :: [0x0A, 0x0D, 0x0A]))).drop place) = true → place = 17 := by
      decide
    obtain ⟨inside, there⟩ := occurs.isPrefixOf_drop
    exact places other (Nat.lt_of_lt_of_le inside (by decide)) there
  some_ := by decide
  decimal := by
    intro byte member
    rw [mem_singleton.mp member]
    rfl
  counts := by decide
  positive := by decide
  fits := by decide

end Phy6212.Http
