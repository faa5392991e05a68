import Phy6212.Keyscan.Scan
import Mathlib.Data.Fintype.Prod

/-!
# The task that scans the keys

`keyscan_task` waits for an interrupt, scans until no key is down, and sends messages for keys
pressed or held and for the release.
-/

namespace Phy6212.Keyscan

inductive Vk where
  | null
  | key01 | key02 | key03 | key04 | key05 | key06 | key07 | key08 | key09
  | key10 | key11 | key12 | key13 | key14 | key15 | key16 | key17
  | func1 | func2 | func3 | func4 | func5 | func6
  deriving DecidableEq, Repr

def oneKeyMap : List (Nat × Vk) :=
  [(1, .key01), (2, .key02), (3, .key03), (4, .key04), (5, .key05), (6, .key06), (7, .key07),
    (8, .key08), (9, .key09), (10, .key10), (11, .key11), (12, .key12), (13, .key13)]

def combinKeyMap : List ((Nat × Nat) × Vk) := [((10, 3), .func1)]

def getOneKey (code : Nat) : Vk := (oneKeyMap.lookup code).getD .null

/-- `get_combin_key`: the codes are looked up in descending order. -/
def getCombinKey (code1 code2 : Nat) : Vk :=
  (combinKeyMap.lookup (if code1 < code2 then (code2, code1) else (code1, code2))).getD .null

inductive KeyMsg where
  | pressed
  | hold
  | combine
  | release
  | releaseAll
  deriving DecidableEq, Repr

structure Msg where
  subtype : KeyMsg
  param : Vk
  deriving DecidableEq, Repr

/-- What happens in `app_send_message`: the message is put into the queue, and then the
event is set. -/
structure Outcome where
  queued : Bool
  signalled : Bool
  deriving DecidableEq, Repr

def appSendMessage (outcome : Outcome) : Bool := outcome.queued && outcome.signalled

def delivered : Outcome := ⟨true, true⟩

/-- The scanner and the locals of `keyscan_task`. -/
structure Task where
  scanner : Scanner
  param : Vk
  isVkPressed : Bool
  scanning : Bool

/-- What the task does, for an observer. -/
inductive Note where
  | woken
  | scanned (matrix : Matrix)
  | sent (msg : Msg) (delivered : Bool)
  | delayed
  | left
  deriving DecidableEq

/-- The message for one key: its subtype and its parameter, which may be `VK_KEY_NULL`. -/
def oneKeyMsg (key : KeyDef) : Option Msg :=
  if key.isChanged then
    match key.state with
    | .down => some ⟨.pressed, getOneKey key.code⟩
    | .hold => some ⟨.hold, getOneKey key.code⟩
    | _ => none
  else none

def twoKeyMsg (key1 key2 : KeyDef) : Option Msg :=
  if key1.isChanged ∨ key2.isChanged then
    if key1.state = .down ∧ key2.state = .down then
      some ⟨.pressed, getCombinKey key1.code key2.code⟩
    else if key1.state = .hold ∧ key2.state = .hold then
      some ⟨.hold, getCombinKey key1.code key2.code⟩
    else none
  else none

def keyMsg (keyNum : Fin 6) (s : Scanner) : Option Msg :=
  if keyNum = 1 then
    match s.keysPressed 0 with
    | some pos => oneKeyMsg (s.keys pos)
    | none => none
  else if keyNum = 2 then
    match s.keysPressed 0, s.keysPressed 1 with
    | some pos1, some pos2 => twoKeyMsg (s.keys pos1) (s.keys pos2)
    | _, _ => none
  else none

def Task.tell (keyNum : Fin 6) (outcome : Outcome) (t : Task) : List Note × Task :=
  match keyMsg keyNum t.scanner with
  | some msg =>
    let t := { t with param := msg.param }
    if msg.param ≠ .null then ([.sent msg outcome.queued], { t with isVkPressed := true })
    else ([], t)
  | none => ([], t)

/-- One round of the scan loop: what the task does, and the task after it. -/
def Task.round (matrix : Matrix) (outcome : Outcome) (t : Task) : List Note × Task :=
  let (keyNum, scanner) := kscanReadKeycode matrix t.scanner
  let t := { t with scanner := scanner }
  if keyNum = 0 then
    if t.isVkPressed then
      let sent := Note.sent ⟨.releaseAll, t.param⟩ outcome.queued
      if appSendMessage outcome then
        ([.scanned matrix, sent, .left], { t with isVkPressed := false, scanning := false })
      else ([.scanned matrix, sent, .delayed], t)
    else ([.scanned matrix, .left], { t with scanning := false })
  else
    let (told, t) := t.tell keyNum outcome
    (.scanned matrix :: told ++ (if 2 < keyNum then [] else [.delayed]), t)

def Scanner.initial : Scanner where
  isHasChanged := false
  keys := fun _ => ⟨false, 0, .release, 0⟩
  keysPressed := fun _ => none

def Task.initial : Task := ⟨Scanner.initial, .null, false, false⟩

def NoKey (matrix : Matrix) : Prop := ∀ pos, matrix pos = false

instance (matrix : Matrix) : Decidable (NoKey matrix) :=
  inferInstanceAs (Decidable (∀ _, _))

def CountsAsNone (matrix : Matrix) : Prop := (downKeys matrix).length % 6 = 0

instance (matrix : Matrix) : Decidable (CountsAsNone matrix) :=
  inferInstanceAs (Decidable (_ = _))

theorem keyNum_eq_zero_iff (matrix : Matrix) (s : Scanner) :
    (kscanReadKeycode matrix s).1 = 0 ↔ CountsAsNone matrix := by
  have count := (kscanReadKeycode_counted matrix s).1
  rw [← Fin.val_inj, count]
  unfold counted CountsAsNone
  rw [List.length_drop]
  omega

variable {msg : Msg}

theorem oneKeyMsg_cases {key : KeyDef} (filled : oneKeyMsg key = some msg) :
    key.isChanged = true ∧
      (msg.subtype = .pressed ∧ key.state = .down ∨ msg.subtype = .hold ∧ key.state = .hold) := by
  unfold oneKeyMsg at filled
  split at filled
  · next changed =>
    cases state : key.state with
    | release => simp [state] at filled
    | timeout => simp [state] at filled
    | down =>
      simp only [state, Option.some.injEq] at filled
      exact ⟨changed, .inl ⟨filled ▸ rfl, rfl⟩⟩
    | hold =>
      simp only [state, Option.some.injEq] at filled
      exact ⟨changed, .inr ⟨filled ▸ rfl, rfl⟩⟩
  · cases filled

theorem twoKeyMsg_cases {key1 key2 : KeyDef} (filled : twoKeyMsg key1 key2 = some msg) :
    (key1.isChanged = true ∨ key2.isChanged = true) ∧
      (msg.subtype = .pressed ∧ key1.state = .down ∧ key2.state = .down ∨
        msg.subtype = .hold ∧ key1.state = .hold ∧ key2.state = .hold) := by
  unfold twoKeyMsg at filled
  split at filled
  · next changed =>
    split at filled
    · next down =>
      cases filled
      exact ⟨changed, .inl ⟨rfl, down⟩⟩
    split at filled
    · next hold =>
      cases filled
      exact ⟨changed, .inr ⟨rfl, hold⟩⟩
    · cases filled
  · cases filled

theorem keyMsg_of {matrix : Matrix} {s : Scanner}
    (filled : keyMsg (kscanReadKeycode matrix s).1 (kscanReadKeycode matrix s).2 = some msg) :
    (∃ pos, matrix pos = true ∧
        oneKeyMsg ((kscanReadKeycode matrix s).2.keys pos) = some msg) ∨
      ∃ pos1 pos2, matrix pos1 = true ∧ matrix pos2 = true ∧
        twoKeyMsg ((kscanReadKeycode matrix s).2.keys pos1)
          ((kscanReadKeycode matrix s).2.keys pos2) = some msg := by
  obtain ⟨count, entries⟩ := kscanReadKeycode_counted matrix s
  have isDown : ∀ (i : Fin 6) pos, i.val < (counted matrix).length →
      (kscanReadKeycode matrix s).2.keysPressed i = some pos → matrix pos = true := by
    intro i pos less entry
    rw [entries i less] at entry
    exact mem_of_mem_counted (List.mem_of_getElem? entry)
  unfold keyMsg at filled
  split at filled
  · next one =>
    rw [one] at count
    split at filled
    · next pos entry =>
      exact .inl ⟨pos, isDown 0 pos (by rw [← count]; decide) entry, filled⟩
    · cases filled
  split at filled
  · next two =>
    rw [two] at count
    split at filled
    · next pos1 pos2 entry1 entry2 =>
      exact .inr ⟨pos1, pos2, isDown 0 pos1 (by rw [← count]; decide) entry1,
        isDown 1 pos2 (by rw [← count]; decide) entry2, filled⟩
    · cases filled
  · cases filled

theorem keyMsg_cases {matrix : Matrix} {s : Scanner}
    (filled : keyMsg (kscanReadKeycode matrix s).1 (kscanReadKeycode matrix s).2 = some msg) :
    msg.subtype = .pressed ∨ msg.subtype = .hold ∧ ∃ pos, matrix pos = true ∧
      ((kscanReadKeycode matrix s).2.keys pos).isChanged = true ∧
      ((kscanReadKeycode matrix s).2.keys pos).state = .hold := by
  rcases keyMsg_of filled with ⟨pos, down, told⟩ | ⟨pos1, pos2, down1, down2, told⟩
  · obtain ⟨changed, ⟨pressed, -⟩ | ⟨hold, held⟩⟩ := oneKeyMsg_cases told
    · exact .inl pressed
    · exact .inr ⟨hold, pos, down, changed, held⟩
  obtain ⟨changed, ⟨pressed, -⟩ | ⟨hold, held1, held2⟩⟩ := twoKeyMsg_cases told
  · exact .inl pressed
  · rcases changed with first | second
    · exact .inr ⟨hold, pos1, down1, first, held1⟩
    · exact .inr ⟨hold, pos2, down2, second, held2⟩

/-- What a round can do. It leaves the loop only when there is nothing more to release. -/
inductive Round (matrix : Matrix) (outcome : Outcome) (t : Task) : List Note → Task → Prop where
  | released {t' : Task} (none_ : CountsAsNone matrix) (pressed : t.isVkPressed = true)
      (accepted : appSendMessage outcome = true) (off : t'.isVkPressed = false)
      (out : t'.scanning = false) :
      Round matrix outcome t
        [.scanned matrix, .sent ⟨.releaseAll, t.param⟩ outcome.queued, .left] t'
  | failed {t' : Task} (none_ : CountsAsNone matrix) (pressed : t.isVkPressed = true)
      (refused : appSendMessage outcome = false) (on : t'.isVkPressed = true)
      (goes : t'.scanning = t.scanning) :
      Round matrix outcome t
        [.scanned matrix, .sent ⟨.releaseAll, t.param⟩ outcome.queued, .delayed] t'
  | ended {t' : Task} (none_ : CountsAsNone matrix) (pressed : t.isVkPressed = false)
      (off : t'.isVkPressed = false) (out : t'.scanning = false) :
      Round matrix outcome t [.scanned matrix, .left] t'
  | silent {t' : Task} {wait : List Note} (keys : ¬ CountsAsNone matrix)
      (waits : wait = [] ∨ wait = [.delayed]) (same : t'.isVkPressed = t.isVkPressed)
      (goes : t'.scanning = t.scanning) : Round matrix outcome t (.scanned matrix :: wait) t'
  | told {t' : Task} {msg : Msg} {wait : List Note} (keys : ¬ CountsAsNone matrix)
      (waits : wait = [] ∨ wait = [.delayed])
      (filled : keyMsg (kscanReadKeycode matrix t.scanner).1 (kscanReadKeycode matrix t.scanner).2 =
        some msg) (some_ : msg.param ≠ .null) (on : t'.isVkPressed = true)
      (goes : t'.scanning = t.scanning) :
      Round matrix outcome t (.scanned matrix :: .sent msg outcome.queued :: wait) t'

theorem round_cases (matrix : Matrix) (outcome : Outcome) (t : Task) :
    Round matrix outcome t (t.round matrix outcome).1 (t.round matrix outcome).2 := by
  have zero := keyNum_eq_zero_iff matrix t.scanner
  unfold Task.round
  simp only
  by_cases none_ : (kscanReadKeycode matrix t.scanner).1 = 0
  · rw [if_pos none_]
    by_cases pressed : t.isVkPressed = true
    · rw [if_pos pressed]
      cases accepted : appSendMessage outcome with
      | true => exact .released (zero.mp none_) pressed accepted rfl rfl
      | false => exact .failed (zero.mp none_) pressed accepted pressed rfl
    · rw [if_neg pressed]
      have off : t.isVkPressed = false := by simpa using pressed
      exact .ended (zero.mp none_) off off rfl
  rw [if_neg none_]
  have keys : ¬ CountsAsNone matrix := fun counts => none_ (zero.mpr counts)
  have waits : (if 2 < (kscanReadKeycode matrix t.scanner).1 then [] else [Note.delayed]) = [] ∨
      (if 2 < (kscanReadKeycode matrix t.scanner).1 then [] else [Note.delayed]) = [.delayed] := by
    split
    · exact .inl rfl
    · exact .inr rfl
  unfold Task.tell
  cases filled : keyMsg (kscanReadKeycode matrix t.scanner).1
      (kscanReadKeycode matrix t.scanner).2 with
  | none => exact .silent keys waits rfl rfl
  | some msg =>
    by_cases some_ : msg.param ≠ .null
    · simp only [if_pos some_]
      exact .told keys waits filled some_ rfl rfl
    · simp only [if_neg some_]
      exact .silent keys waits rfl rfl

end Phy6212.Keyscan
