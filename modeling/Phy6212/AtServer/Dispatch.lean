import Phy6212.AtServer.Server
import Phy6212.CLib.Strings

/-!
# The AT server dispatches a command line

A text is looked up among the registered commands. Without a match, `interrupt_cmd_handle` moves the
text from the next `AT` on to the start of the buffer and tries again.
-/

namespace Phy6212.AtServer

open List CLib

def charEq : UInt8 := 61

def charQuery : UInt8 := 63

inductive AtCmdType where
  | testCmd
  | readCmd
  | writeCmd
  | executeCmd
  deriving DecidableEq, Repr

structure AtCmd where
  cmd : List UInt8
  cb : Option Nat
  deriving DecidableEq, Repr

structure CmdCall where
  cb : Nat
  cmd : List UInt8
  type : AtCmdType
  param : Option (List UInt8)
  deriving DecidableEq, Repr

inductive Output where
  | call (call : CmdCall)
  | error
  deriving DecidableEq, Repr

def getCmdLen : List UInt8 → Nat × AtCmdType
  | [] => (0, .executeCmd)
  | c :: rest =>
    if c = charEq then (0, if rest.head? = some charQuery then .testCmd else .writeCmd)
    else if c = charQuery then (0, .readCmd)
    else ((getCmdLen rest).1 + 1, (getCmdLen rest).2)

def strncmpEq : Nat → List UInt8 → List UInt8 → Bool
  | 0, _, _ => true
  | n + 1, a :: s, b :: t => a = b && strncmpEq n s t
  | _ + 1, [], [] => true
  | _ + 1, _, _ => false

def tryCmd (buffer : List UInt8) (len : Nat) (type : AtCmdType) (atcmd : AtCmd) : Option CmdCall :=
  if strncmpEq len buffer atcmd.cmd = true ∧ len = atcmd.cmd.length then
    match atcmd.cb with
    | none => none
    | some cb =>
      let param := if type = .writeCmd then
        (strstr [charEq] buffer).map fun place => buffer.drop (place + 1) else none
      some ⟨cb, atcmd.cmd, type, param⟩
  else none

def cmdProcess (cmdHead : List (List AtCmd)) (buffer : List UInt8) : Int × List Output :=
  let (len, type) := getCmdLen buffer
  match cmdHead.findSome? fun node => node.findSome? (tryCmd buffer len type) with
  | some call => (0, [.call call])
  | none => (-1, [])

/-- `get_next_line`, on the block of the buffer: `memmove` and the final zero byte. -/
def getNextLine (block : List UInt8) : Option (Int × List UInt8) :=
  (textAt block 0).map fun text =>
    if 2 ≤ text.length then
      match strstr [charA, charT] (text.drop 2) with
      | some place =>
        let line := text.drop (2 + place)
        (0, (line ++ block.drop line.length).set line.length 0)
      | none => (-1, block)
    else (-1, block)

/-- The inner loop of `interrupt_cmd_handle`, with `ret` when it is left. -/
def dispatchLoop (cmdHead : List (List AtCmd)) : Nat → List UInt8 → Option (Int × List Output)
  | 0, _ => none
  | fuel + 1, block =>
    (textAt block 0).bind fun text =>
      let (ret, outputs) := cmdProcess cmdHead text
      if ret < 0 then
        (getNextLine block).bind fun (ret, block) =>
          if ret < 0 then some (ret, outputs)
          else (dispatchLoop cmdHead fuel block).map fun (ret, more) => (ret, outputs ++ more)
      else some (ret, outputs)

/-- The dispatch of a line in `interrupt_cmd_handle`, from the echo to the clearing of the buffer.
-/
def dispatch (cmdHead : List (List AtCmd)) (block : List UInt8) : Option (List Output) :=
  (dispatchLoop cmdHead block.length block).map fun (ret, outputs) =>
    if ret < 0 then outputs ++ [.error] else outputs

def nameOf (text : List UInt8) : List UInt8 := text.takeWhile fun c => c ≠ charEq ∧ c ≠ charQuery

def requestOf (text : List UInt8) : AtCmdType × Option (List UInt8) :=
  match text.drop (nameOf text).length with
  | [] => (.executeCmd, none)
  | c :: rest =>
    if c = charEq then
      if rest.head? = some charQuery then (.testCmd, none) else (.writeCmd, some rest)
    else (.readCmd, none)

def answer (cmdHead : List (List AtCmd)) (text : List UInt8) : Option CmdCall :=
  cmdHead.flatten.findSome? fun atcmd =>
    if atcmd.cmd = nameOf text then
      atcmd.cb.map fun cb => ⟨cb, atcmd.cmd, (requestOf text).1, (requestOf text).2⟩
    else none

def commandTexts (text : List UInt8) : List (List UInt8) :=
  text.tails.filter ([charA, charT].isPrefixOf ·)

variable (text : List UInt8)

theorem getCmdLen_eq : getCmdLen text = ((nameOf text).length, (requestOf text).1) := by
  induction text with
  | nil => rfl
  | cons c rest ih =>
    rw [getCmdLen]
    by_cases eq : c = charEq
    · subst eq
      have name : nameOf (charEq :: rest) = [] := by simp [nameOf]
      simp only [requestOf, name, length_nil, drop_zero, if_true]
      split <;> rfl
    by_cases query : c = charQuery
    · subst query
      have name : nameOf (charQuery :: rest) = [] := by simp [nameOf]
      simp [requestOf, name, eq]
    · have name : nameOf (c :: rest) = c :: nameOf rest := by simp [nameOf, eq, query]
      rw [if_neg eq, if_neg query, ih]
      simp [requestOf, name]

theorem nameOf_eq_take : nameOf text = text.take (nameOf text).length :=
  prefix_iff_eq_take.mp ( takeWhile_prefix _)

theorem param_eq :
    (if (requestOf text).1 = .writeCmd then
      (strstr [charEq] text).map fun place => text.drop (place + 1) else none) =
      (requestOf text).2 := by
  have parts : nameOf text ++ text.drop (nameOf text).length = text := by
    conv_rhs => rw [← take_append_drop (nameOf text).length text, ← nameOf_eq_take]
  have name : charEq ∉ nameOf text := by
    intro member
    have other := mem_takeWhile_imp member
    simp at other
  unfold requestOf
  cases behind : text.drop (nameOf text).length with
  | nil => rfl
  | cons c rest =>
    rw [behind] at parts
    by_cases eq : c = charEq
    · subst eq
      by_cases test : rest.head? = some charQuery
      · simp [test]
      have place := strchr_append name rest
      rw [parts] at place
      simp only [if_true, if_neg test, strstr_singleton, place, Option.map_some,
        Option.some.injEq]
      rw [← tail_drop, behind]
      rfl
    · simp [eq]

theorem strncmpEq_iff {n : Nat} {s t : List UInt8} (within : n ≤ s.length) :
    strncmpEq n s t = true ∧ n = t.length ↔ t = s.take n := by
  induction n generalizing s t with
  | zero => simp [strncmpEq, eq_comm]
  | succ n ih =>
    cases s with
    | nil => cases within
    | cons a s =>
      cases t with
      | nil => simp [strncmpEq]
      | cons b t =>
        have rest := ih (t := t) (Nat.le_of_succ_le_succ within)
        simp only [strncmpEq, Bool.and_eq_true, decide_eq_true_eq, length_cons,
          take_succ_cons, List.cons.injEq, ← rest, Nat.add_right_cancel_iff]
        tauto

theorem tryCmd_eq (text : List UInt8) (atcmd : AtCmd) :
    tryCmd text (nameOf text).length (requestOf text).1 atcmd =
      if atcmd.cmd = nameOf text then
        atcmd.cb.map fun cb => ⟨cb, atcmd.cmd, (requestOf text).1, (requestOf text).2⟩
      else none := by
  have within : (nameOf text).length ≤ text.length := ( takeWhile_prefix _).length_le
  unfold tryCmd
  simp only [strncmpEq_iff within, ← nameOf_eq_take, param_eq]
  cases atcmd.cb <;> rfl

variable {rest block : List UInt8} (cmdHead : List (List AtCmd))

theorem findSome?_arrays (f : AtCmd → Option CmdCall) :
    (cmdHead.findSome? fun node => node.findSome? f) = cmdHead.flatten.findSome? f := by
  induction cmdHead with
  | nil => rfl
  | cons node cmdHead ih =>
    rw [findSome?_cons, flatten_cons, findSome?_append, ih]
    cases node.findSome? f <;> rfl

theorem cmdProcess_eq (text : List UInt8) :
    cmdProcess cmdHead text =
      match answer cmdHead text with
      | some call => (0, [.call call])
      | none => (-1, []) := by
  unfold cmdProcess answer
  simp only [getCmdLen_eq, findSome?_arrays, funext (tryCmd_eq text)]

theorem commandTexts_cons (rest : List UInt8) :
    commandTexts (charA :: charT :: rest) =
      (charA :: charT :: rest) ::
        (strstr [charA, charT] rest).elim [] fun place => commandTexts (rest.drop place) := by
  have second : ¬ [charA, charT].isPrefixOf (charT :: rest) = true := by
    have other : charA ≠ charT := by decide
    simp [isPrefixOf, other]
  unfold commandTexts
  rw [tails_cons, filter_cons_of_pos (by simp [isPrefixOf]), tails_cons,
    filter_cons_of_neg second, filter_tails_strstr (by simp)]

theorem textAt_moved (block : List UInt8) {line : List UInt8} (nonzero : 0 ∉ line)
    (room : line.length < block.length) :
    textAt ((line ++ block.drop line.length).set line.length 0) 0 = some line := by
  refine textAt_eq_some_iff.mpr ⟨nonzero, block.drop (line.length + 1), ?_⟩
  rw [drop_zero, set_append_right _ _ (Nat.le_refl _), Nat.sub_self,
    drop_eq_getElem_cons room, set_cons_zero]

theorem getNextLine_cases (here : textAt block 0 = some (charA :: charT :: rest)) :
    strstr [charA, charT] rest = none ∧ getNextLine block = some (-1, block) ∨
    ∃ place block' more, strstr [charA, charT] rest = some place ∧
      getNextLine block = some (0, block') ∧ rest.drop place = charA :: charT :: more ∧
      textAt block' 0 = some (charA :: charT :: more) := by
  unfold getNextLine
  rw [here]
  cases found : strstr [charA, charT] rest with
  | none =>
    refine .inl ⟨rfl, ?_⟩
    simp [found]
  | some place =>
    obtain ⟨before, more, split, length⟩ := strstr_spec found
    have line : rest.drop place = charA :: charT :: more := by
      rw [split, ← length, drop_left]
      rfl
    obtain ⟨nonzero, after, whole⟩ := textAt_eq_some_iff.mp here
    have moved : (charA :: charT :: rest).drop (2 + place) = charA :: charT :: more := by
      rw [← drop_drop]
      exact line
    refine .inr ⟨place, _, more, rfl, ?_, line, textAt_moved block ?_ ?_⟩
    · simp [found, ← moved]
    · intro zero
      exact nonzero (mem_of_mem_drop (moved ▸ zero))
    have shorter := congrArg List.length moved
    have longer := congrArg List.length whole
    simp only [length_drop, length_append, length_cons, Nat.sub_zero] at shorter longer ⊢
    omega

/-- What the loop is left with, from the first answer on. -/
def outcome (first : Option CmdCall) : Int × List Output :=
  match first with
  | some call => (0, [.call call])
  | none => (-1, [])

theorem dispatchLoop_eq (fuel : Nat) (here : textAt block 0 = some (charA :: charT :: rest))
    (enough : rest.length < fuel) :
    dispatchLoop cmdHead fuel block =
      some (outcome ((commandTexts (charA :: charT :: rest)).findSome? (answer cmdHead))) := by
  induction fuel generalizing block rest with
  | zero => cases enough
  | succ fuel ih =>
    rw [dispatchLoop, here, Option.bind_some, cmdProcess_eq, commandTexts_cons, findSome?_cons]
    cases answer cmdHead _ with
    | some call => rfl
    | none =>
      rcases getNextLine_cases here with ⟨found, last⟩ | ⟨place, block', more, found, next, line, there⟩
      · rw [found, last]
        rfl
      have shorter : more.length < fuel := by
        have length := congrArg length line
        simp only [length_drop, length_cons] at length
        omega
      have rest_eq := ih there shorter
      rw [found, next, Option.elim_some, line]
      simp [rest_eq]

/-- **The leftmost command is called**: the dispatch ends; it calls the callback for the first text
from an `AT` on that has an answer, once, and it sends `ERROR`, once, when none has. -/
theorem dispatch_leftmost (cmdHead : List (List AtCmd)) (block text : List UInt8)
    (here : textAt block 0 = some text) (start : [charA, charT] <+: text) :
    dispatch cmdHead block = some (match (commandTexts text).findSome? (answer cmdHead) with
      | some call => [.call call]
      | none => [.error]) := by
  obtain ⟨rest, rfl⟩ := start
  rw [cons_append, cons_append, nil_append] at here ⊢
  have room : rest.length < block.length := by
    obtain ⟨-, after, whole⟩ := textAt_eq_some_iff.mp here
    have length := congrArg length whole
    simp only [length_drop, length_append, length_cons] at length
    omega
  rw [dispatch, dispatchLoop_eq cmdHead block.length here room]
  cases (commandTexts _).findSome? _ with
  | none => rfl
  | some call => rfl

theorem dispatch_leftmost_write :
    dispatch [[⟨['A', 'T', '+', 'B'].map Char.toUInt8, some 7⟩]]
        (['A', 'T', '+', 'A', 'T', '+', 'B', '=', '1'].map Char.toUInt8 ++ [0]) =
      some [.call ⟨7, ['A', 'T', '+', 'B'].map Char.toUInt8, .writeCmd, some [0x31]⟩] :=
  dispatch_leftmost _ _ (['A', 'T', '+', 'A', 'T', '+', 'B', '=', '1'].map Char.toUInt8)
    (by decide) (by decide)

end Phy6212.AtServer
