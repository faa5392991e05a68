import Mathlib.Data.List.DropRight
import Phy6212.AtServer.Dispatch

/-!
# The parameters of a write command

`atserver_scanf` cuts a copy of the command at its delimiters (`para_cut`), trims the parameters,
moves them together and hands them to `vsscanf`.
-/

namespace Phy6212.AtServer

open List CLib

/-- A null pointer is read, or a pointer that does not point into the copy. -/
inductive Fault where
  | nullPointer
  | outOfBlock
  deriving DecidableEq, Repr

def charSpace : UInt8 := 32

/-! ## The functions -/

def getParaNum (delim : UInt8) (buffer : List UInt8) : Int :=
  match strstr [charEq] buffer with
  | none => 0
  | some p => if buffer.drop (p + 1) = [] then -1 else 1 + (buffer.drop p).count delim

/-- The first loop of `para_cut`, from `buf` on: the cut copy, and the entries of `argv` behind
the first one. -/
def cutLoop (delim : UInt8) : Nat → List UInt8 → Nat → Except Fault (List UInt8 × List (Option Nat))
  | 0, _, _ => .error .outOfBlock
  | fuel + 1, copy, buf =>
    match copy[buf]? with
    | none => .error .outOfBlock
    | some c =>
      if c = 0 then .ok (copy, [])
      else if c = delim then
        match copy[buf + 1]? with
        | none => .error .outOfBlock
        | some next =>
          let arg := if next = 0 ∨ next = delim then none else some (buf + 1)
          (cutLoop delim fuel (copy.set buf 0) (buf + 1)).map fun (copy, argv) =>
            (copy, arg :: argv)
      else cutLoop delim fuel copy (buf + 1)

def skipSpaces (copy : List UInt8) : Nat → Nat → Except Fault Nat
  | 0, _ => .error .outOfBlock
  | fuel + 1, p =>
    match copy[p]? with
    | none => .error .outOfBlock
    | some c => if c = charSpace then skipSpaces copy fuel (p + 1) else .ok p

def removeHeads (copy : List UInt8) : List (Option Nat) → Except Fault (List Nat)
  | [] => .ok []
  | none :: _ => .error .nullPointer
  | some p :: argv =>
    match skipSpaces copy copy.length p with
    | .error fault => .error fault
    | .ok p => (removeHeads copy argv).map fun argv => p :: argv

def trimBack (copy : List UInt8) (p : Nat) : Except Fault (List UInt8) :=
  match copy[p]? with
  | none => .error .outOfBlock
  | some c =>
    if c = 0 then .ok copy
    else if c = charSpace then
      match p with
      | 0 => .error .outOfBlock
      | p + 1 => trimBack copy p
    else if p + 1 < copy.length then .ok (copy.set (p + 1) 0) else .error .outOfBlock

def removeTails : List UInt8 → List Nat → Except Fault (List UInt8)
  | copy, [] => .ok copy
  | copy, p :: argv =>
    match textAt copy p with
    | none => .error .outOfBlock
    | some text =>
      match p + text.length with
      | 0 => .error .outOfBlock
      | last + 1 =>
        match trimBack copy last with
        | .error fault => .error fault
        | .ok copy => removeTails copy argv

def memmove (block : List UInt8) (dst src len : Nat) : List UInt8 :=
  block.take dst ++ ((block.drop src).take len ++ block.drop (dst + len))

/-- A parameter is moved to the offset, with its zero byte. -/
def place (copy : List UInt8) (offset p : Nat) : Except Fault (List UInt8 × Nat) :=
  match textAt copy p with
  | none => .error .outOfBlock
  | some text =>
    .ok ((memmove copy offset p text.length).set (offset + text.length) 0, offset + text.length)

def rejoinLoop (delim : UInt8) : List Nat → List UInt8 → Nat → Except Fault (List UInt8 × Nat)
  | [], copy, offset => .ok (copy, offset)
  | p :: argv, copy, offset =>
    match place (copy.set offset delim) (offset + 1) p with
    | .error fault => .error fault
    | .ok (copy, offset) => rejoinLoop delim argv copy offset

def paraCut (delim : UInt8) (room : Int) (copy : List UInt8) (buf : Nat) :
    Except Fault (List UInt8 × List Nat) := do
  let (copy, argv) ← cutLoop delim copy.length copy buf
  if room < argv.length + 1 then throw .outOfBlock
  let argv ← removeHeads copy (some buf :: argv)
  let copy ← removeTails copy argv
  return (copy, argv)

def rejoin (delim : UInt8) (copy : List UInt8) : List Nat → Except Fault (List UInt8)
  | [] => .error .outOfBlock
  | p :: argv => do
      let (copy, offset) ← place copy 0 p
      let (copy, offset) ← rejoinLoop delim argv copy offset
      match textAt (copy.set offset 0) 0 with
      | none => throw .outOfBlock
      | some text => return text

/-- `atserver_scanf`: the string that is handed to `vsscanf`, if it comes to that. -/
def atserverScanf (delim : UInt8) (strdup malloc : Bool) (buffer : List UInt8) :
    Except Fault (Option (List UInt8)) :=
  let argc := getParaNum delim buffer
  if 0 < argc ∧ strdup = true ∧ malloc = true then
    match strstr [charEq] buffer with
    | none => .error .nullPointer
    | some p => do
        let (copy, argv) ← paraCut delim argc (buffer ++ [0]) (p + 1)
        let text ← rejoin delim copy argv
        return some text
  else .ok none

/-! ## What is to be handed over -/

def strip (param : List UInt8) : List UInt8 :=
  (param.dropWhile (· = charSpace)).rdropWhile (· = charSpace)

def parameters (delim : UInt8) (part : List UInt8) : List UInt8 :=
  [delim].intercalate ((part.splitOn delim).map strip)

/-! ## Cutting -/

def layout (params : List (List UInt8)) : List UInt8 := params.flatMap (· ++ [0])

/-- The entries of `argv` for parameters behind a delimiter, the first of them at the place. -/
def argvFrom : Nat → List (List UInt8) → List (Option Nat)
  | _, [] => []
  | place, param :: params =>
    (if param = [] then none else some place) :: argvFrom (place + param.length + 1) params

def Param (delim : UInt8) (param : List UInt8) : Prop := ∀ c ∈ param, c ≠ 0 ∧ c ≠ delim

variable {l : List (Nat × List UInt8)} (params : List (List UInt8)) (before : List UInt8)
  (param : List UInt8)

theorem getElem?_behind (c : UInt8) (rest : List UInt8) :
    (before ++ c :: rest)[before.length]? = some c := by
  simp

theorem set_behind (c d : UInt8) (rest : List UInt8) :
    (before ++ c :: rest).set before.length d = before ++ d :: rest := by
  simp

section Cut

variable {delim : UInt8} {param : List UInt8}

theorem cutLoop_param (plain : Param delim param) (before after : List UInt8) (fuel : Nat) :
    cutLoop delim (fuel + param.length) (before ++ (param ++ after)) before.length =
      cutLoop delim fuel (before ++ (param ++ after)) (before.length + param.length) := by
  induction param generalizing before with
  | nil => rfl
  | cons c param ih =>
    obtain ⟨nonzero, other⟩ := plain c mem_cons_self
    have rest := ih (fun c member => plain c (mem_cons_of_mem _ member)) (before ++ [c])
    simp only [append_assoc, cons_append, nil_append, length_append,
      length_singleton] at rest
    rw [length_cons, ← Nat.add_assoc, cutLoop]
    simp only [cons_append, getElem?_behind, if_neg nonzero, if_neg other]
    rw [rest]
    congr 1
    omega

theorem cutLoop_delim (nonzero : delim ≠ 0) (before : List UInt8) (c : UInt8) (rest : List UInt8)
    (fuel : Nat) :
    cutLoop delim (fuel + 1) (before ++ delim :: c :: rest) before.length =
      (cutLoop delim fuel (before ++ [0] ++ c :: rest) (before ++ [0]).length).map fun result =>
        (result.1, (if c = 0 ∨ c = delim then none else some (before.length + 1)) :: result.2) := by
  have then_ : (before ++ delim :: c :: rest)[before.length + 1]? = some c := by
    simp
  rw [cutLoop, getElem?_behind]
  simp only [if_neg nonzero, if_true, then_, set_behind, append_assoc, cons_append,
    nil_append, length_append, length_singleton]

theorem head_intercalate (plain : Param delim param) (params : List (List UInt8)) :
    ∃ next rest, [delim].intercalate (param :: params) ++ [0] = next :: rest ∧
      (next = 0 ∨ next = delim ↔ param = []) := by
  cases param with
  | nil =>
    cases params with
    | nil => exact ⟨0, [], by simp, by simp⟩
    | cons param params =>
      exact ⟨delim, _, rfl, by simp⟩
  | cons c param =>
    obtain ⟨nonzero, other⟩ := plain c mem_cons_self
    refine ⟨c, ?_⟩
    cases params with
    | nil =>
      exact ⟨_, rfl, by simp [nonzero, other]⟩
    | cons param params =>
      exact ⟨_, rfl, by simp [nonzero, other]⟩

theorem cutLoop_eq (nonzero : delim ≠ 0) (params : List (List UInt8)) (before : List UInt8)
    {fuel : Nat} (plain : ∀ p ∈ param :: params, Param delim p)
    (enough : ([delim].intercalate (param :: params)).length < fuel) :
    cutLoop delim fuel (before ++ ([delim].intercalate (param :: params) ++ [0])) before.length =
      .ok (before ++ layout (param :: params),
        argvFrom (before.length + param.length + 1) params) := by
  induction params generalizing param before fuel with
  | nil =>
    rw [intercalate_singleton] at enough ⊢
    obtain ⟨fuel, rfl⟩ : ∃ fuel', fuel = (fuel' + 1) + param.length := ⟨fuel - param.length - 1, by omega⟩
    rw [cutLoop_param (plain param mem_cons_self), cutLoop, ← append_assoc,
      ← length_append, getElem?_behind]
    simp [layout, argvFrom]
  | cons next params ih =>
    have others : ∀ p ∈ next :: params, Param delim p :=
      fun p member => plain p (mem_cons_of_mem _ member)
    rw [intercalate_cons_cons] at enough ⊢
    simp only [length_append, length_singleton] at enough
    obtain ⟨fuel, rfl⟩ : ∃ fuel', fuel = (fuel' + 1) + param.length := ⟨fuel - param.length - 1, by omega⟩
    obtain ⟨c, rest, behind, empty⟩ := head_intercalate (others next mem_cons_self) params
    have further := ih (before ++ param ++ [0]) others (show _ < fuel by omega)
    rw [behind] at further
    have split : before ++ (param ++ [delim] ++ [delim].intercalate (next :: params) ++ [0]) =
        before ++ (param ++ delim :: c :: rest) := by
      rw [← behind]
      simp
    rw [split, cutLoop_param (plain param mem_cons_self), ← append_assoc,
      ← length_append, cutLoop_delim nonzero, further]
    simp [Except.map, layout, argvFrom, empty, Nat.add_assoc]

end Cut

/-! ## Removing spaces -/

def lead (param : List UInt8) : Nat := (param.takeWhile (· = charSpace)).length

/-- Where the parameters without their spaces start, and what they are, when the first one is at
the place. -/
def pieces : Nat → List (List UInt8) → List (Nat × List UInt8)
  | _, [] => []
  | place, param :: params =>
    (place + lead param, strip param) :: pieces (place + param.length + 1) params

theorem skipSpaces_eq {param : List UInt8} (after : List UInt8) (before : List UInt8) {fuel : Nat}
    (enough : param.length < fuel) :
    skipSpaces (before ++ (param ++ 0 :: after)) fuel before.length =
      .ok (before.length + lead param) := by
  induction param generalizing before fuel with
  | nil =>
    obtain ⟨fuel, rfl⟩ := Nat.exists_eq_succ_of_ne_zero (Nat.ne_of_gt enough)
    have other : 0 ≠ charSpace := by decide
    rw [nil_append, skipSpaces, getElem?_behind]
    simp [other, lead]
  | cons c param ih =>
    obtain ⟨fuel, rfl⟩ := Nat.exists_eq_succ_of_ne_zero (Nat.ne_of_gt (Nat.zero_lt_of_lt enough))
    rw [cons_append, skipSpaces, getElem?_behind]
    by_cases space : c = charSpace
    · subst space
      have rest := ih (before ++ [charSpace]) (Nat.lt_of_succ_lt_succ enough)
      simp only [append_assoc, cons_append, nil_append, length_append,
        length_singleton] at rest
      simp [rest, lead, Nat.add_assoc, Nat.add_comm]
    · simp [space, lead]

theorem layout_cons (params : List (List UInt8)) :
    layout (param :: params) = param ++ 0 :: layout params := by
  simp [layout]

theorem append_layout_cons (params : List (List UInt8)) :
    before ++ layout (param :: params) = before ++ (param ++ [0]) ++ layout params := by
  simp [layout_cons]

theorem removeHeads_cons {before param : List UInt8} {params : List (List UInt8)}
    {argv : List (Option Nat)} (rest : removeHeads (before ++ layout (param :: params)) argv =
      if [] ∈ params then .error .nullPointer
      else .ok ((pieces (before.length + param.length + 1) params).map Prod.fst)) :
    removeHeads (before ++ layout (param :: params)) (some before.length :: argv) =
      if [] ∈ params then .error .nullPointer
      else .ok ((pieces before.length (param :: params)).map Prod.fst) := by
  have skipped : skipSpaces (before ++ layout (param :: params))
      (before ++ layout (param :: params)).length before.length =
        .ok (before.length + lead param) := by
    rw [layout_cons]
    refine skipSpaces_eq _ before ?_
    simp only [length_append, length_cons]
    omega
  rw [removeHeads, skipped]
  rw [rest]
  by_cases later : [] ∈ params
  · rw [if_pos later, if_pos later]
    rfl
  · rw [if_neg later, if_neg later]
    rfl

theorem removeHeads_argvFrom (before : List UInt8) :
    removeHeads (before ++ layout params) (argvFrom before.length params) =
      if [] ∈ params then .error .nullPointer
      else .ok ((pieces before.length params).map Prod.fst) := by
  induction params generalizing before with
  | nil => rfl
  | cons param params ih =>
    rw [argvFrom]
    by_cases empty : param = []
    · rw [if_pos empty, if_pos (by simp [empty])]
      rfl
    have rest := ih (before ++ (param ++ [0]))
    rw [← append_layout_cons, length_append, length_append, length_singleton,
      ← Nat.add_assoc] at rest
    rw [if_neg empty, removeHeads_cons rest]
    simp only [mem_cons, Ne.symm empty, false_or]

theorem removeHeads_eq (params : List (List UInt8)) :
    removeHeads (before ++ layout (param :: params))
        (some before.length :: argvFrom (before.length + param.length + 1) params) =
      if [] ∈ params then .error .nullPointer
      else .ok ((pieces before.length (param :: params)).map Prod.fst) := by
  have rest := removeHeads_argvFrom params (before ++ (param ++ [0]))
  rw [← append_layout_cons, length_append, length_append, length_singleton,
    ← Nat.add_assoc] at rest
  exact removeHeads_cons rest

theorem replicate_lead_append :
    replicate (lead param) charSpace ++ param.dropWhile (· = charSpace) = param := by
  induction param with
  | nil => rfl
  | cons c param ih =>
    by_cases space : c = charSpace
    · subst space
      simpa [lead, replicate_succ] using ih
    · simp [lead, space]

theorem exists_append_replicate (text : List UInt8) :
    ∃ k, text = text.rdropWhile (· = charSpace) ++ replicate k charSpace := by
  induction text using reverseRecOn with
  | nil => exact ⟨0, rfl⟩
  | append_singleton text c ih =>
    by_cases space : c = charSpace
    · obtain ⟨k, split⟩ := ih
      refine ⟨k + 1, ?_⟩
      rw [rdropWhile_concat_pos _ _ _ (by simpa using space), replicate_succ',
        ← append_assoc, ← split, space]
    · refine ⟨0, ?_⟩
      rw [rdropWhile_concat_neg _ _ _ (by simpa using space)]
      simp

theorem set_replicate (k : Nat) (after : List UInt8) :
    (replicate k charSpace ++ 0 :: after).set 0 0 =
      (replicate k charSpace).set 0 0 ++ 0 :: after := by
  cases k with
  | zero => rfl
  | succ k => simp [replicate_succ]

theorem trimBack_spaces {c : UInt8} (other : c ≠ charSpace) (before : List UInt8) (k : Nat)
    {after : List UInt8} (nonempty : after ≠ []) :
    trimBack (before ++ c :: (replicate k charSpace ++ after)) (before.length + k) =
      .ok (before ++ c :: if c = 0 then replicate k charSpace ++ after
        else (replicate k charSpace ++ after).set 0 0) := by
  induction k generalizing after with
  | zero =>
    have room : before.length + 1 < (before ++ c :: after).length := by
      have := length_pos_iff.mpr nonempty
      simp only [length_append, length_cons]
      omega
    unfold trimBack
    rw [Nat.add_zero, replicate_zero, nil_append, getElem?_behind]
    by_cases zero : c = 0
    · simp [zero]
    have written : (before ++ c :: after).set (before.length + 1) 0 = before ++ c :: after.set 0 0 := by
      rw [set_append_right _ _ (Nat.le_add_right _ 1), Nat.add_sub_cancel_left]
      rfl
    simp only [if_neg zero, if_neg other, if_pos room, written]
  | succ k ih =>
    have again : replicate (k + 1) charSpace ++ after =
        replicate k charSpace ++ charSpace :: after := by
      rw [replicate_succ', append_assoc]
      rfl
    have here : (before ++ c :: (replicate k charSpace ++ charSpace :: after))[
        before.length + (k + 1)]? = some charSpace := by
      simp
    rw [again]
    unfold trimBack
    rw [here]
    exact ih (by simp)

theorem exists_spaces :
    ∃ k, param = replicate (lead param) charSpace ++ (strip param ++ replicate k charSpace) := by
  obtain ⟨k, split⟩ := exists_append_replicate (param.dropWhile _)
  refine ⟨k, ?_⟩
  conv_lhs => rw [← replicate_lead_append param, split]
  rfl

theorem strip_eq_nil_or_concat :
    strip param = [] ∧ param.dropWhile (· = charSpace) = [] ∨
      ∃ text c, strip param = text ++ [c] ∧ c ≠ charSpace := by
  by_cases empty : strip param = []
  · refine .inl ⟨empty, ?_⟩
    have all := rdropWhile_eq_nil_iff.mp empty
    cases rest : param.dropWhile _ with
    | nil => rfl
    | cons c rest' =>
      have stopped := head?_dropWhile_not (fun c => decide (c = charSpace)) param
      rw [rest] at all stopped
      have space := all c mem_cons_self
      exact absurd (of_decide_eq_true space) (of_decide_eq_false stopped)
  have last : ¬ decide ((strip param).getLast empty = charSpace) = true :=
    rdropWhile_last_not _ _ empty
  exact .inr ⟨(strip param).dropLast, (strip param).getLast empty,
    (dropLast_concat_getLast empty).symm, by simpa using last⟩

variable {b : UInt8} (delim : UInt8)

theorem trimBack_param (before : List UInt8) {param : List UInt8} (other : b ≠ charSpace)
    (nonzero : 0 ∉ param) (after : List UInt8) :
    ∃ last trimmed more,
      textAt (before ++ [b] ++ (param ++ 0 :: after)) ((before ++ [b]).length + lead param) =
        some (param.dropWhile (· = charSpace)) ∧
      (before ++ [b]).length + lead param + (param.dropWhile (· = charSpace)).length = last + 1 ∧
      trimBack (before ++ [b] ++ (param ++ 0 :: after)) last =
        .ok (before ++ [b] ++ (trimmed ++ 0 :: after)) ∧
      trimmed.length = param.length ∧ (trimmed ++ [0]).drop (lead param) = strip param ++ 0 :: more := by
  have parts := replicate_lead_append param
  have text : textAt (before ++ [b] ++ (param ++ 0 :: after)) ((before ++ [b]).length + lead param) =
      some (param.dropWhile (· = charSpace)) := by
    have plain : 0 ∉ param.dropWhile (· = charSpace) :=
      fun zero => nonzero ((dropWhile_sublist _).subset zero)
    have found := textAt_append (before ++ [b] ++ replicate (lead param) charSpace) plain after
    have same : before ++ [b] ++ replicate (lead param) charSpace ++
        (param.dropWhile (· = charSpace) ++ 0 :: after) = before ++ [b] ++ (param ++ 0 :: after) := by
      conv_rhs => rw [← parts]
      simp
    rw [same, length_append, length_replicate] at found
    exact found
  rcases strip_eq_nil_or_concat param with ⟨empty, spaces⟩ | ⟨core, c, split, last_other⟩
  · -- only spaces: the search ends in front of the parameter
    rw [spaces, append_nil] at parts
    have whole : before ++ [b] ++ (param ++ 0 :: after) =
        before ++ b :: (replicate (lead param) charSpace ++ 0 :: after) := by
      rw [parts]
      simp
    have length : param.length = lead param := by
      conv_lhs => rw [← parts]
      simp
    refine ⟨before.length + lead param, if b = 0 then param else param.set 0 0, [], text, ?_, ?_, ?_, ?_⟩
    · simp [spaces]
      omega
    · rw [whole, trimBack_spaces other before _ (cons_ne_nil 0 after), set_replicate, parts]
      by_cases zero : b = 0
      · simp [zero]
      · simp [zero]
    · split <;> simp
    · rw [empty]
      split <;> simp [length]
  · obtain ⟨k, ended⟩ := exists_append_replicate _
    have core_eq : param.dropWhile (· = charSpace) = core ++ [c] ++ replicate k charSpace := by
      rw [← split]
      exact ended
    rw [core_eq] at parts
    have c_nonzero : c ≠ 0 := by
      rintro rfl
      refine nonzero ?_
      rw [← parts]
      simp
    have whole : before ++ [b] ++ (param ++ 0 :: after) =
        (before ++ [b] ++ replicate (lead param) charSpace ++ core) ++
          c :: (replicate k charSpace ++ 0 :: after) := by
      conv_lhs => rw [← parts]
      simp
    obtain ⟨more, written⟩ : ∃ more, (replicate k charSpace).set 0 0 ++ [0] = 0 :: more := by
      cases k with
      | zero => exact ⟨[], rfl⟩
      | succ k => exact ⟨_, rfl⟩
    refine ⟨(before ++ [b] ++ replicate (lead param) charSpace ++ core).length + k,
      replicate (lead param) charSpace ++ core ++ [c] ++ (replicate k charSpace).set 0 0,
      more, text, ?_, ?_, ?_, ?_⟩
    · simp [core_eq]
      omega
    · rw [whole, trimBack_spaces last_other _ k (cons_ne_nil 0 after), if_neg c_nonzero,
        set_replicate]
      simp
    · have length := congrArg length parts
      simp only [length_append, length_replicate, length_set, length_singleton]
        at length ⊢
      omega
    · rw [split]
      simp [written]

theorem zero_notMem_strip {param : List UInt8} (nonzero : 0 ∉ param) : 0 ∉ strip param := by
  intro zero
  exact nonzero ((dropWhile_sublist _).subset (( rdropWhile_prefix _ _).subset zero))

theorem removeTails_pieces (params : List (List UInt8)) (before : List UInt8)
    (other : b ≠ charSpace) (nonzero : ∀ param ∈ params, 0 ∉ param) :
    ∃ tail, removeTails (before ++ [b] ++ layout params)
        ((pieces (before ++ [b]).length params).map Prod.fst) = .ok (before ++ [b] ++ tail) ∧
      ∀ piece ∈ pieces (before ++ [b]).length params,
        textAt (before ++ [b] ++ tail) piece.1 = some piece.2 := by
  induction params generalizing before b with
  | nil => exact ⟨[], rfl, by simp [pieces]⟩
  | cons param params ih =>
    have here := nonzero param mem_cons_self
    obtain ⟨last, trimmed, more, text, pointer, trim, length, ends⟩ :=
      trimBack_param before other here _
    obtain ⟨tail, rest, texts⟩ := ih _ (b := 0) (by decide)
      (fun param member => nonzero param (mem_cons_of_mem _ member))
    have next : (before ++ [b] ++ trimmed ++ [0]).length = (before ++ [b]).length + param.length + 1 := by
      simp only [length_append, length_singleton, length]
    have whole : ∀ tail : List UInt8, before ++ [b] ++ trimmed ++ [0] ++ tail =
        before ++ [b] ++ (trimmed ++ 0 :: tail) := by
      intro tail
      simp
    rw [next, whole] at rest
    simp only [next, whole] at texts
    refine ⟨trimmed ++ 0 :: tail, ?_, ?_⟩
    · rw [pieces, map_cons, removeTails, layout_cons, text]
      simp only [pointer, trim]
      rw [rest, whole]
    intro piece member
    rcases mem_cons.mp member with rfl | later
    · refine textAt_eq_some_iff.mpr ⟨zero_notMem_strip here, more ++ tail, ?_⟩
      have within : lead param ≤ (trimmed ++ [0]).length := by
        have shorter : lead param ≤ param.length := (takeWhile_sublist _).length_le
        simp only [length_append, length]
        omega
      have regroup : trimmed ++ 0 :: tail = (trimmed ++ [0]) ++ tail := by simp
      rw [drop_length_add_append, regroup, drop_append_of_le_length within, ends]
      simp
    · exact texts piece later

/-! ## Putting together -/

def Spaced : Nat → List (Nat × List UInt8) → Prop
  | _, [] => True
  | offset, (start, text) :: rest => offset < start ∧ Spaced (start + text.length) rest

variable {offset : Nat}

theorem spaced_pieces {place : Nat} (behind : offset < place) :
    Spaced offset (pieces place params) := by
  induction params generalizing offset place with
  | nil => exact trivial
  | cons param params ih =>
    refine ⟨Nat.lt_add_right _ behind, ih ?_⟩
    obtain ⟨k, split⟩ := exists_spaces param
    have length := congrArg length split
    simp only [length_append, length_replicate] at length
    omega

theorem Spaced.lt_of_mem (spaced : Spaced offset l) {piece : Nat × List UInt8}
    (member : piece ∈ l) : offset < piece.1 := by
  induction l generalizing offset piece with
  | nil => cases member
  | cons first rest ih =>
    rcases mem_cons.mp member with rfl | later
    · exact spaced.1
    · have beyond := ih spaced.2 later
      have := spaced.1
      omega

theorem Spaced.mono {offset' : Nat} (spaced : Spaced offset l) (before : offset' ≤ offset) :
    Spaced offset' l := by
  cases l with
  | nil => exact trivial
  | cons piece rest => exact ⟨Nat.lt_of_le_of_lt before spaced.1, spaced.2⟩

variable {copy : List UInt8} {start : Nat} {text : List UInt8}

theorem place_eq (there : textAt copy start = some text) (behind : offset ≤ start) :
    ∃ copy', place copy offset start = .ok (copy', offset + text.length) ∧
      copy'.take (offset + text.length) = copy.take offset ++ text ∧
      offset + text.length < copy'.length ∧
      ∀ j, offset + text.length < j → copy'.drop j = copy.drop j := by
  obtain ⟨-, after, split⟩ := textAt_eq_some_iff.mp there
  have room : start + text.length < copy.length := by
    have length := congrArg length split
    simp only [length_drop, length_append, length_cons] at length
    omega
  have moved : (copy.drop start).take text.length = text := by
    rw [split, take_left]
  have front : (copy.take offset ++ text).length = offset + text.length := by
    rw [length_append, length_take, Nat.min_eq_left (by omega)]
  have inside : offset + text.length < copy.length := by omega
  refine ⟨copy.take offset ++ text ++ 0 :: copy.drop (offset + text.length + 1), ?_, ?_, ?_, ?_⟩
  · rw [place, there]
    have written := set_behind (copy.take offset ++ text) copy[offset + text.length] 0
      (copy.drop (offset + text.length + 1))
    rw [front] at written
    simp only [memmove, moved, ← append_assoc, drop_eq_getElem_cons inside, written]
  · rw [← front, take_left]
  · rw [length_append, length_cons, front]
    omega
  · intro j beyond
    obtain ⟨i, rfl⟩ : ∃ i, j = (copy.take offset ++ text).length + (i + 1) :=
      ⟨j - (offset + text.length) - 1, by omega⟩
    rw [drop_length_add_append, drop_succ_cons, drop_drop, front]
    congr 1
    omega

theorem rejoinLoop_eq (l : List (Nat × List UInt8)) (room : offset < copy.length)
    (spaced : Spaced offset l) (texts : ∀ piece ∈ l, textAt copy piece.1 = some piece.2) :
    ∃ copy' offset', rejoinLoop delim (l.map Prod.fst) copy offset = .ok (copy', offset') ∧
      copy'.take offset' = copy.take offset ++ l.flatMap (fun piece => delim :: piece.2) ∧
      offset' < copy'.length := by
  induction l generalizing copy offset with
  | nil => exact ⟨copy, offset, rfl, by simp, room⟩
  | cons piece rest ih =>
    obtain ⟨start, text⟩ := piece
    obtain ⟨behind, further⟩ := spaced
    have same : ∀ j, offset < j → (copy.set offset delim).drop j = copy.drop j := by
      intro j beyond
      exact drop_set_of_lt beyond
    have there : textAt (copy.set offset delim) start = some text := by
      unfold textAt
      rw [same start behind]
      exact texts (start, text) mem_cons_self
    obtain ⟨copy', placed, front, inside, tail⟩ := place_eq there behind
    have still : ∀ piece ∈ rest, textAt copy' piece.1 = some piece.2 := by
      intro piece member
      have beyond := further.lt_of_mem member
      unfold textAt
      rw [tail piece.1 (by omega), same piece.1 (by omega)]
      exact texts piece (mem_cons_of_mem _ member)
    obtain ⟨copy₂, offset₂, joined, prefix_, room₂⟩ := ih inside (further.mono (by omega)) still
    refine ⟨copy₂, offset₂, ?_, ?_, room₂⟩
    · simp only [map_cons, rejoinLoop, placed, joined]
    rw [prefix_, front]
    have written : (copy.set offset delim).take (offset + 1) = copy.take offset ++ [delim] := by
      rw [take_add_one, take_set_of_le (Nat.le_refl _), getElem?_set_self room]
      rfl
    rw [written]
    simp

theorem textAt_set_zero (room : offset < copy.length) (nonzero : 0 ∉ copy.take offset) :
    textAt (copy.set offset 0) 0 = some (copy.take offset) := by
  refine textAt_eq_some_iff.mpr ⟨nonzero, copy.drop (offset + 1), ?_⟩
  rw [drop_zero, set_eq_take_append_cons_drop, if_pos room]

theorem rejoin_eq {delim : UInt8} (nonzero : delim ≠ 0) (behind : 0 ≤ start)
    (spaced : Spaced (start + text.length) l)
    (texts : ∀ piece ∈ (start, text) :: l, textAt copy piece.1 = some piece.2) :
    rejoin delim copy (((start, text) :: l).map Prod.fst) =
      .ok (text ++ l.flatMap fun piece => delim :: piece.2) := by
  have there : textAt copy start = some text := texts (start, text) mem_cons_self
  obtain ⟨copy', placed, front, inside, tail⟩ := place_eq there behind
  have still : ∀ piece ∈ l, textAt copy' piece.1 = some piece.2 := by
    intro piece member
    have beyond := spaced.lt_of_mem member
    unfold textAt
    rw [tail piece.1 (by omega)]
    exact texts piece (mem_cons_of_mem _ member)
  obtain ⟨copy₂, offset₂, joined, whole, room⟩ := rejoinLoop_eq delim l inside (spaced.mono (by omega)) still
  rw [front, take_zero, nil_append] at whole
  have plain : 0 ∉ text ++ l.flatMap fun piece => delim :: piece.2 := by
    have zero_free : ∀ piece ∈ (start, text) :: l, 0 ∉ piece.2 :=
      fun piece member => (textAt_eq_some_iff.mp (texts piece member)).1
    simp only [mem_append, mem_flatMap, mem_cons, not_or, not_exists, not_and]
    refine ⟨zero_free _ mem_cons_self, fun piece member => ⟨Ne.symm nonzero, ?_⟩⟩
    exact zero_free piece (mem_cons_of_mem _ member)
  have ended := textAt_set_zero room (by rwa [whole])
  rw [whole] at ended
  simp only [map_cons, rejoin, placed, joined, ended, bind, Except.bind]
  rfl

theorem length_splitOn (part : List UInt8) :
    (part.splitOn delim).length = part.count delim + 1 := by
  induction part with
  | nil => rfl
  | cons c part ih =>
    rw [splitOn_cons_eq_if_modifyHead]
    by_cases here : c = delim
    · simp [here, ih]
    · simp [here, ih]

theorem param_of_mem_splitOn {delim : UInt8} {part : List UInt8} (nonzero : 0 ∉ part) :
    ∀ param ∈ part.splitOn delim, Param delim param := by
  induction part with
  | nil =>
    intro param member c inside
    rw [splitOn_nil, mem_singleton] at member
    subst member
    cases inside
  | cons c part ih =>
    obtain ⟨other, rest⟩ := not_or.mp (mt mem_cons.mpr nonzero)
    have plain := ih rest
    rw [splitOn_cons_eq_if_modifyHead]
    by_cases here : c = delim
    · simp only [here, beq_self_eq_true, if_true, forall_mem_cons]
      exact ⟨by simp [Param], plain⟩
    simp only [beq_iff_eq, here, if_false]
    cases split : part.splitOn delim with
    | nil => simp
    | cons first params =>
      rw [split, forall_mem_cons] at plain
      rw [modifyHead_cons, forall_mem_cons]
      refine ⟨?_, plain.2⟩
      intro d inside
      rcases mem_cons.mp inside with rfl | later
      · exact ⟨Ne.symm other, here⟩
      · exact plain.1 d later

theorem intercalate_cons (text : List UInt8) (texts : List (List UInt8)) :
    [delim].intercalate (text :: texts) = text ++ texts.flatMap (delim :: ·) := by
  induction texts generalizing text with
  | nil => simp
  | cons next texts ih =>
    rw [intercalate_cons_cons, ih]
    simp

theorem map_snd_pieces : ∀ (place : Nat),
    (pieces place params).map Prod.snd = params.map strip := by
  induction params with
  | nil => exact fun _ => rfl
  | cons param params ih =>
    intro place
    rw [pieces, map_cons, map_cons, ih]

variable {delim : UInt8} {name part : List UInt8}

theorem length_argvFrom (params : List (List UInt8)) : ∀ (place : Nat),
    (argvFrom place params).length = params.length := by
  induction params with
  | nil => exact fun _ => rfl
  | cons param params ih =>
    intro place
    rw [argvFrom, length_cons, length_cons, ih]

theorem paraCut_cases (nonzero : delim ≠ 0) {room : Int} {param : List UInt8}
    {params : List (List UInt8)} (plain : ∀ p ∈ param :: params, Param delim p)
    (enough : (params.length : Int) + 1 ≤ room) (before : List UInt8) (other : b ≠ charSpace) :
    ([] ∈ params ∧ paraCut delim room
      (before ++ [b] ++ ([delim].intercalate (param :: params) ++ [0])) (before ++ [b]).length =
        .error .nullPointer) ∨
    ([] ∉ params ∧ ∃ copy, paraCut delim room
      (before ++ [b] ++ ([delim].intercalate (param :: params) ++ [0])) (before ++ [b]).length =
        .ok (copy, (pieces (before ++ [b]).length (param :: params)).map Prod.fst) ∧
      ∀ piece ∈ pieces (before ++ [b]).length (param :: params), textAt copy piece.1 = some piece.2) := by
  have cut := cutLoop_eq nonzero params (before ++ [b]) plain
    (show _ < (before ++ [b] ++ ([delim].intercalate (param :: params) ++ [0])).length by
      simp only [length_append, length_singleton]
      omega)
  have heads := removeHeads_eq (before ++ [b]) param params
  have fits : ¬ room < ((argvFrom ((before ++ [b]).length + param.length + 1) params).length) + 1 := by
    rw [length_argvFrom]
    omega
  by_cases empty : [] ∈ params
  · refine .inl ⟨empty, ?_⟩
    rw [if_pos empty] at heads
    simp only [paraCut, cut, heads, bind, Except.bind, if_neg fits]
  rw [if_neg empty] at heads
  obtain ⟨tail, tails, texts⟩ := removeTails_pieces _ before other
    (fun p member zero => (plain p member 0 zero).1 rfl)
  refine .inr ⟨empty, before ++ [b] ++ tail, ?_, texts⟩
  simp only [paraCut, cut, heads, tails, bind, Except.bind, if_neg fits]
  rfl

/-- **The parameters are handed over as they should be**, without the spaces at their ends and
joined by the delimiter, exactly when no parameter behind a delimiter is empty. -/
theorem scanf_iff (delim : UInt8) (name part : List UInt8) (nonzero : delim ≠ 0)
    (not_eq : delim ≠ charEq) (first_eq : charEq ∉ name) (text : 0 ∉ name ++ charEq :: part) (nonempty : part ≠ []) :
    atserverScanf delim true true (name ++ charEq :: part) = .ok (some (parameters delim part)) ↔
      [] ∉ (part.splitOn delim).tail := by
  have found : strstr [charEq] (name ++ charEq :: part) = some name.length := by
    rw [strstr_singleton]
    exact strchr_append first_eq part
  have plain : ∀ param ∈ part.splitOn delim, Param delim param := by
    refine param_of_mem_splitOn fun zero => text ?_
    exact mem_append_right _ (mem_cons_of_mem _ zero)
  have argc : getParaNum delim (name ++ charEq :: part) = (part.splitOn delim).length := by
    have behind : (name ++ charEq :: part).drop (name.length + 1) = part := by
      simp
    have from_eq : (name ++ charEq :: part).drop name.length = charEq :: part := drop_left
    rw [getParaNum, found]
    dsimp only
    rw [behind, if_neg nonempty, from_eq, count_cons_of_ne (Ne.symm not_eq), length_splitOn]
    omega
  have joined : [delim].intercalate _ = part := intercalate_splitOn delim
  unfold parameters
  obtain ⟨param, params, split⟩ := exists_cons_of_ne_nil (splitOn_ne_nil delim part)
  rw [split] at plain argc joined ⊢
  have whole : name ++ charEq :: part ++ [0] =
      name ++ [charEq] ++ ([delim].intercalate (param :: params) ++ [0]) := by
    rw [joined]
    simp
  have positive : 0 < ((param :: params).length : Int) := by
    simp only [length_cons]
    omega
  have start : name.length + 1 = (name ++ [charEq]).length := by simp
  rw [atserverScanf, argc, found]
  simp only [positive, and_self, if_true, whole, start, tail_cons]
  have room : params.length + 1 ≤ ((param :: params).length : Int) := by simp
  have eq_other : charEq ≠ charSpace := by decide
  rcases paraCut_cases nonzero plain room name eq_other with
    ⟨empty, cut⟩ | ⟨none_empty, copy, cut, texts⟩
  · rw [cut]
    refine iff_of_false ?_ (not_not_intro empty)
    intro impossible
    cases impossible
  rw [cut]
  refine iff_of_true ?_ none_empty
  have behind : 0 < (name ++ [charEq]).length := by simp
  obtain ⟨-, spaced⟩ := spaced_pieces (param :: params) behind
  have string := rejoin_eq nonzero (Nat.zero_le _) spaced texts
  have texts_eq : (pieces ((name ++ [charEq]).length + param.length + 1) params).flatMap
      (fun piece => delim :: piece.2) = (params.map strip).flatMap (delim :: ·) := by
    rw [← map_snd_pieces, flatMap_map]
  rw [texts_eq, ← intercalate_cons] at string
  simp only [pieces, bind, Except.bind, string]
  rfl

theorem scanf_iff_two :
    atserverScanf 44 true true (['A', 'T', '+', 'X', '=', ' ', '1', ' ', ',', '2'].map Char.toUInt8) =
      .ok (some (parameters 44 ([' ', '1', ' ', ',', '2'].map Char.toUInt8))) :=
  (scanf_iff 44 (['A', 'T', '+', 'X'].map Char.toUInt8) _
    (by decide) (by decide) (by decide) (by decide) (by decide)).mpr (by decide)

/-- A parameter that is left out between two others is read through a null pointer. -/
theorem empty_parameter_null :
    atserverScanf 44 true true (['A', 'T', '+', 'X', '=', '1', ',', ',', '2'].map Char.toUInt8) =
      .error .nullPointer ∧
    parameters 44 (['1', ',', ',', '2'].map Char.toUInt8) = ['1', ',', ',', '2'].map Char.toUInt8 := by
  decide +kernel

end Phy6212.AtServer
