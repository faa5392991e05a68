import Phy6212.Keyscan.Trace

/-!
# A key is told once

What the task knows of a key depends only on the number of scans in a row that have found it down
(`KeyFits`): at the first it goes down, 61 scans later it is held.
-/

namespace Phy6212.Keyscan

open List Runs

/-- How many scans in a row, up to the end of the trace, have found all of the keys down. -/
def downFor (keys : List Pos) : List Note → Nat
  | [] => 0
  | .scanned matrix :: earlier => if keys.all matrix then downFor keys earlier + 1 else 0
  | _ :: earlier => downFor keys earlier

def Throughout (keys : List Pos) (stretch : List Note) : Prop :=
  ∀ matrix, Note.scanned matrix ∈ stretch → keys.all matrix = true

def vkOf : List Pos → Vk
  | [pos] => getOneKey (scanCode pos)
  | [pos1, pos2] => getCombinKey (scanCode pos1) (scanCode pos2)
  | _ => .null

def Note.sends (msg : Msg) : Note → Bool
  | .sent msg' _ => decide (msg' = msg)
  | _ => false

def attempts (msg : Msg) (stretch : List Note) : Nat := stretch.countP (Note.sends msg)

theorem attempts_cons (msg : Msg) (note : Note) (stretch : List Note) :
    attempts msg (note :: stretch) = attempts msg stretch + if note.sends msg then 1 else 0 :=
  countP_cons

variable {msg : Msg} {key : KeyDef} {s : Watched} {scans : Nat} {keys : List Pos}
  {guard : Watched → Input → Prop} (matrix : Matrix)

theorem attempts_sent {msg' : Msg} (other : msg' ≠ msg) (delivered : Bool) (stretch : List Note) :
    attempts msg (.sent msg' delivered :: stretch) = attempts msg stretch := by
  rw [attempts_cons, Note.sends, if_neg (by simpa using other), Nat.add_zero]

theorem downFor_pair (pos1 pos2 : Pos) (trace : List Note) :
    downFor [pos1, pos2] trace = min (downFor [pos1] trace) (downFor [pos2] trace) := by
  induction trace with
  | nil => rfl
  | cons note earlier ih =>
    cases note with
    | scanned matrix =>
      simp only [downFor, all_cons, all_nil, Bool.and_true, ih]
      cases matrix pos1 <;> cases matrix pos2 <;> simp
    | woken => exact ih
    | sent msg delivered => exact ih
    | delayed => exact ih
    | left => exact ih

theorem downFor_round (keys : List Pos) (matrix : Matrix) (outcome : Outcome) (t : Task)
    (trace : List Note) :
    downFor keys ((t.round matrix outcome).1.reverse ++ trace) =
      downFor keys (.scanned matrix :: trace) := by
  generalize notesEq : (t.round matrix outcome).1 = notes
  have round := round_cases matrix outcome t
  rw [notesEq] at round
  cases round with
  | released => rfl
  | failed => rfl
  | ended => rfl
  | silent keys waits same goes =>
    rcases waits with rfl | rfl
    · rfl
    · rfl
  | told keys waits filled some_ on goes =>
    rcases waits with rfl | rfl
    · rfl
    · rfl

theorem round_scanner (outcome : Outcome) (t : Task) :
    (t.round matrix outcome).2.scanner = (kscanReadKeycode matrix t.scanner).2 := by
  unfold Task.round
  dsimp only
  split
  · split
    · split <;> rfl
    · rfl
  unfold Task.tell
  split
  · split <;> rfl
  · rfl

/-- The key as it is when the given number of scans in a row have found it down. -/
def KeyFits (scans : Nat) (key : KeyDef) : Prop :=
  if scans = 0 then key.state = .release
  else if scans ≤ 61 then key.state = .down ∧ key.holdTimeMs = (scans - 1) * intervalTime
  else key.state = .hold ∧ key.holdTimeMs = 61 * intervalTime

theorem KeyFits.lift (fits : KeyFits scans key) (pos : Pos) :
    KeyFits 0 (nextKey false pos key) := by
  have ends : key.state = .release ∨ key.state = .down ∨ key.state = .hold := by
    unfold KeyFits at fits
    split at fits
    · exact .inl fits
    · split at fits
      · exact .inr (.inl fits.1)
      · exact .inr (.inr fits.1)
  show (nextKey false pos key).state = .release
  rcases ends with state | state | state
  · simp [nextKey, KeyDef.lift, state]
  · simp [nextKey, KeyDef.lift, state]
  · simp [nextKey, KeyDef.lift, state]

theorem KeyFits.press (fits : KeyFits scans key) (pos : Pos) :
    KeyFits (scans + 1) (nextKey true pos key) ∧
      ((nextKey true pos key).isChanged = true ↔ scans = 0 ∨ scans = 61) := by
  unfold KeyFits at fits
  split at fits
  · next none_ =>
    subst none_
    simp [KeyFits, nextKey, KeyDef.press, fits]
  rename_i some_
  split at fits
  · next down =>
    obtain ⟨state, time⟩ := fits
    have next : key.holdTimeMs + intervalTime = scans * intervalTime := by
      rw [time, ← Nat.succ_mul, Nat.succ_eq_add_one, Nat.sub_add_cancel (by omega)]
    have over_iff : scans * intervalTime > holdTime ↔ scans = 61 := by
      unfold intervalTime holdTime
      omega
    by_cases last : scans = 61
    · subst last
      simp [KeyFits, nextKey, KeyDef.press, state, next, over_iff.mpr]
    · have goes_on : ¬ scans * intervalTime > holdTime := fun more => last (over_iff.mp more)
      have few : scans + 1 ≤ 61 := by omega
      simp [KeyFits, nextKey, KeyDef.press, state, next, goes_on, few, last, some_]
  · next held =>
    obtain ⟨state, time⟩ := fits
    have many : ¬ scans + 1 ≤ 61 := by omega
    have other : scans ≠ 61 := by omega
    simp [KeyFits, nextKey, KeyDef.press, state, time, many, other, some_]

theorem KeyDef.press_code (key : KeyDef) : key.press.code = key.code := by
  unfold KeyDef.press
  split
  · rfl
  · dsimp only
    split <;> rfl
  · rfl
  · rfl

theorem KeyDef.lift_code (key : KeyDef) : key.lift.code = key.code := by
  unfold KeyDef.lift
  split <;> rfl

theorem nextKey_code (down : Bool) (pos : Pos) (key : KeyDef) :
    (nextKey down pos key).code = scanCode pos := by
  cases down with
  | true => exact KeyDef.press_code _
  | false => exact KeyDef.lift_code _

def KeysFit (s : Watched) : Prop :=
  ∀ pos, KeyFits (downFor [pos] s.trace) (s.task.scanner.keys pos)

theorem downFor_scanned (pos : Pos) (matrix : Matrix) (trace : List Note) :
    downFor [pos] (.scanned matrix :: trace) =
      if matrix pos = true then downFor [pos] trace + 1 else 0 := by
  simp [downFor]

theorem KeysFit.scan (fit : KeysFit s) (matrix : Matrix) (pos : Pos) :
    KeyFits (downFor [pos] (.scanned matrix :: s.trace))
      ((kscanReadKeycode matrix s.task.scanner).2.keys pos) := by
  rw [kscanReadKeycode_keys, downFor_scanned]
  cases reads : matrix pos with
  | true => exact ((fit pos).press pos).1
  | false => exact (fit pos).lift pos

theorem KeysFit.step {s' : Watched} {input : Input} (fit : KeysFit s) (ok : s.step input = .ok s') :
    KeysFit s' := by
  rcases step_cases ok with ⟨rfl, -, rfl⟩ | ⟨matrix, outcome, rfl, -, rfl⟩
  · exact fit
  · intro pos
    rw [downFor_round, round_scanner]
    exact fit.scan matrix pos

theorem keysFit_reached (run : Reaches Watched.step guard Watched.initial s) : KeysFit s :=
  run.invariant (fun _ => rfl) fun _ _ _ fit _ ok => fit.step ok

theorem getOneKey_inj : ∀ pos pos' : Pos, getOneKey (scanCode pos) = getOneKey (scanCode pos') →
    getOneKey (scanCode pos) = .null ∨ pos = pos' := by
  decide

theorem getOneKey_ne_func1 : ∀ pos : Pos, getOneKey (scanCode pos) ≠ .func1 := by
  decide

theorem getCombinKey_cases : ∀ pos1 pos2 : Pos,
    getCombinKey (scanCode pos1) (scanCode pos2) = .null ∨
      getCombinKey (scanCode pos1) (scanCode pos2) = .func1 ∧
        (pos1 = (1, 2) ∧ pos2 = (2, 0) ∨ pos1 = (2, 0) ∧ pos2 = (1, 2)) := by
  decide

theorem vkOf_eq_one {pos : Pos} (same : vkOf keys = getOneKey (scanCode pos))
    (some_ : getOneKey (scanCode pos) ≠ .null) : keys = [pos] := by
  unfold vkOf at same
  split at same
  · next pos' =>
    rcases getOneKey_inj pos pos' same.symm with none_ | rfl
    · exact absurd none_ some_
    · rfl
  · next pos1 pos2 =>
    rcases getCombinKey_cases pos1 pos2 with none_ | ⟨func1, -⟩
    · exact absurd (same.symm.trans none_) some_
    · exact absurd (same.symm.trans func1) (getOneKey_ne_func1 pos)
  · exact absurd same.symm some_

theorem vkOf_eq_two {pos1 pos2 : Pos}
    (same : vkOf keys = getCombinKey (scanCode pos1) (scanCode pos2))
    (some_ : getCombinKey (scanCode pos1) (scanCode pos2) ≠ .null) :
    keys = [pos1, pos2] ∨ keys = [pos2, pos1] := by
  rcases getCombinKey_cases pos1 pos2 with none_ | ⟨func1, places⟩
  · exact absurd none_ some_
  rw [func1] at same
  unfold vkOf at same
  split at same
  · next pos => exact absurd same (getOneKey_ne_func1 pos)
  · next pos1' pos2' =>
    rcases getCombinKey_cases pos1' pos2' with none_ | ⟨-, places'⟩
    · rw [none_] at same
      cases same
    rcases places with ⟨rfl, rfl⟩ | ⟨rfl, rfl⟩
    · rcases places' with ⟨rfl, rfl⟩ | ⟨rfl, rfl⟩
      · exact .inl rfl
      · exact .inr rfl
    · rcases places' with ⟨rfl, rfl⟩ | ⟨rfl, rfl⟩
      · exact .inr rfl
      · exact .inl rfl
  · cases same

def dueAt : KeyMsg → Option Nat
  | .pressed => some 1
  | .hold => some 62
  | _ => none

theorem KeyFits.down_iff (fits : KeyFits scans key) :
    key.state = .down ↔ scans ≠ 0 ∧ scans ≤ 61 := by
  unfold KeyFits at fits
  split at fits
  · next none_ => simp [fits, none_]
  · next some_ =>
    split at fits
    · next few => simp [fits.1, some_, few]
    · next many => simp [fits.1, many]

theorem KeyFits.hold_iff (fits : KeyFits scans key) : key.state = .hold ↔ 61 < scans := by
  unfold KeyFits at fits
  split at fits
  · next none_ => simp [fits, none_]
  · next some_ =>
    split at fits
    · next few => simp [fits.1, few]
    · next many => simp [fits.1, Nat.lt_of_not_le many]

theorem oneKeyMsg_param (filled : oneKeyMsg key = some msg) : msg.param = getOneKey key.code := by
  unfold oneKeyMsg at filled
  split at filled
  · split at filled
    · cases filled
      rfl
    · cases filled
      rfl
    · cases filled
  · cases filled

theorem twoKeyMsg_param {key1 key2 : KeyDef} (filled : twoKeyMsg key1 key2 = some msg) :
    msg.param = getCombinKey key1.code key2.code := by
  unfold twoKeyMsg at filled
  split at filled
  · split at filled
    · cases filled
      rfl
    split at filled
    · cases filled
      rfl
    · cases filled
  · cases filled

theorem oneKeyMsg_due (fits : KeyFits scans key) {pos : Pos}
    (filled : oneKeyMsg (nextKey true pos key) = some msg) :
    dueAt msg.subtype = some (scans + 1) := by
  obtain ⟨next, changes⟩ := fits.press pos
  obtain ⟨changed, ⟨pressed, down⟩ | ⟨hold, held⟩⟩ := oneKeyMsg_cases filled
  · have few := next.down_iff.mp down
    have first : scans = 0 := by
      rcases changes.mp changed with first | last <;> omega
    rw [pressed, first]
    rfl
  have many := next.hold_iff.mp held
  have last : scans = 61 := by
    rcases changes.mp changed with first | last <;> omega
  rw [hold, last]
  rfl

theorem twoKeyMsg_due {scans1 scans2 : Nat} {key1 key2 : KeyDef} (fits1 : KeyFits scans1 key1)
    (fits2 : KeyFits scans2 key2) {pos1 pos2 : Pos}
    (filled : twoKeyMsg (nextKey true pos1 key1) (nextKey true pos2 key2) = some msg) :
    dueAt msg.subtype = some (min (scans1 + 1) (scans2 + 1)) := by
  obtain ⟨next1, changes1⟩ := fits1.press pos1
  obtain ⟨next2, changes2⟩ := fits2.press pos2
  obtain ⟨changed, ⟨pressed, down1, down2⟩ | ⟨hold, held1, held2⟩⟩ := twoKeyMsg_cases filled
  · have few1 := next1.down_iff.mp down1
    have few2 := next2.down_iff.mp down2
    have first : min (scans1 + 1) (scans2 + 1) = 1 := by
      rcases changed with change | change
      · rcases changes1.mp change with first | last <;> omega
      · rcases changes2.mp change with first | last <;> omega
    rw [pressed, first]
    rfl
  have many1 := next1.hold_iff.mp held1
  have many2 := next2.hold_iff.mp held2
  have last : min (scans1 + 1) (scans2 + 1) = 62 := by
    rcases changed with change | change
    · rcases changes1.mp change with first | last <;> omega
    · rcases changes2.mp change with first | last <;> omega
  rw [hold, last]
  rfl

theorem keyMsg_due (fit : KeysFit s) {matrix : Matrix}
    (filled : keyMsg (kscanReadKeycode matrix s.task.scanner).1
      (kscanReadKeycode matrix s.task.scanner).2 = some msg) (some_ : msg.param ≠ .null)
    (same : vkOf keys = msg.param) :
    dueAt msg.subtype = some (downFor keys (.scanned matrix :: s.trace)) := by
  rcases keyMsg_of filled with ⟨pos, down, told⟩ | ⟨pos1, pos2, down1, down2, told⟩
  · have param := oneKeyMsg_param told
    rw [kscanReadKeycode_keys, nextKey_code] at param
    rw [kscanReadKeycode_keys, down] at told
    rw [vkOf_eq_one (same.trans param) (param ▸ some_), downFor_scanned, if_pos down]
    exact oneKeyMsg_due (fit pos) told
  have param := twoKeyMsg_param told
  rw [kscanReadKeycode_keys, kscanReadKeycode_keys, nextKey_code, nextKey_code] at param
  rw [kscanReadKeycode_keys, kscanReadKeycode_keys, down1, down2] at told
  have due := twoKeyMsg_due (fit pos1) (fit pos2) told
  rcases vkOf_eq_two (same.trans param) (param ▸ some_) with rfl | rfl
  · rw [downFor_pair, downFor_scanned, downFor_scanned, if_pos down1, if_pos down2]
    exact due
  · rw [downFor_pair, downFor_scanned, downFor_scanned, if_pos down1, if_pos down2, Nat.min_comm]
    exact due

/-- Every message stands behind its scan, and one about keys stands where it is due. -/
def Timed : List Note → Prop
  | [] => True
  | .sent msg _ :: earlier =>
    (∃ matrix rest, earlier = .scanned matrix :: rest) ∧
      (∀ keys scans, vkOf keys = msg.param → dueAt msg.subtype = some scans →
        downFor keys earlier = scans) ∧
      Timed earlier
  | _ :: earlier => Timed earlier

theorem Timed.step {s' : Watched} {input : Input} (timed : Timed s.trace) (fit : KeysFit s)
    (ok : s.step input = .ok s') : Timed s'.trace := by
  rcases step_cases ok with ⟨rfl, -, rfl⟩ | ⟨matrix, outcome, rfl, -, rfl⟩
  · exact timed
  generalize notesEq : (s.task.round matrix outcome).1 = notes
  have round := round_cases matrix outcome s.task
  rw [notesEq] at round
  have release : ∀ vk, Timed (.sent ⟨.releaseAll, vk⟩ outcome.queued :: .scanned matrix :: s.trace) := by
    intro vk
    refine ⟨⟨matrix, s.trace, rfl⟩, ?_, timed⟩
    intro keys scans _ due
    cases due
  cases round with
  | released => exact release s.task.param
  | failed => exact release s.task.param
  | ended => exact timed
  | silent keys waits same goes =>
    rcases waits with rfl | rfl
    · exact timed
    · exact timed
  | @told _ msg _ keys waits filled some_ on goes =>
    have sent : Timed (.sent msg outcome.queued :: .scanned matrix :: s.trace) := by
      refine ⟨⟨matrix, s.trace, rfl⟩, ?_, timed⟩
      intro keys scans same due
      rw [keyMsg_due fit filled some_ same] at due
      exact Option.some.inj due
    rcases waits with rfl | rfl
    · exact sent
    · exact sent

theorem timed_reached (run : Reaches Watched.step guard Watched.initial s) : Timed s.trace := by
  induction run with
  | refl => trivial
  | tail run _ ok timed => exact timed.step (keysFit_reached run) ok

theorem Timed.of_append {later earlier : List Note} (timed : Timed (later ++ earlier)) :
    Timed earlier := by
  induction later with
  | nil => exact timed
  | cons note later ih =>
    cases note with
    | sent msg delivered => exact ih timed.2.2
    | woken => exact ih timed
    | scanned matrix => exact ih timed
    | delayed => exact ih timed
    | left => exact ih timed

variable {subtype : KeyMsg} {earlier : List Note}

theorem Throughout.tail {note : Note} {stretch : List Note}
    (down : Throughout keys (note :: stretch)) :
    Throughout keys stretch :=
  fun matrix member => down matrix (mem_cons_of_mem _ member)

theorem Timed.le_downFor (due : dueAt subtype = some scans) (stretch : List Note) :
    Timed (stretch ++ earlier) → Throughout keys stretch →
      0 < attempts ⟨subtype, vkOf keys⟩ stretch → scans ≤ downFor keys (stretch ++ earlier) := by
  induction stretch with
  | nil =>
    intro _ _ some_
    exact absurd some_ (Nat.lt_irrefl 0)
  | cons note stretch ih =>
    intro timed down some_
    cases note with
    | sent msg delivered =>
      by_cases this : msg = ⟨subtype, vkOf keys⟩
      · subst this
        exact Nat.le_of_eq (timed.2.1 keys scans rfl due).symm
      · rw [attempts_sent this] at some_
        exact ih timed.2.2 down.tail some_
    | scanned matrix =>
      rw [cons_append, downFor, if_pos (down matrix mem_cons_self)]
      exact Nat.le_succ_of_le (ih timed down.tail some_)
    | woken => exact ih timed down.tail some_
    | delayed => exact ih timed down.tail some_
    | left => exact ih timed down.tail some_

theorem Timed.attempts_le_one (due : dueAt subtype = some scans) (stretch : List Note) :
    Timed (stretch ++ earlier) → Throughout keys stretch →
      attempts ⟨subtype, vkOf keys⟩ stretch ≤ 1 := by
  induction stretch with
  | nil =>
    intro _ _
    exact Nat.zero_le 1
  | cons note stretch ih =>
    intro timed down
    cases note with
    | sent msg delivered =>
      by_cases this : msg = ⟨subtype, vkOf keys⟩
      · subst this
        obtain ⟨⟨matrix, before, behind⟩, placed, timed⟩ := timed
        have place := placed keys scans rfl due
        rw [behind] at place timed
        have none_ : attempts ⟨subtype, vkOf keys⟩ stretch = 0 := by
          cases stretch with
          | nil => rfl
          | cons first stretch =>
            obtain ⟨rfl, rfl⟩ := List.cons.inj behind
            rw [downFor, if_pos (down.tail matrix mem_cons_self)] at place
            apply Nat.eq_zero_of_not_pos
            intro more
            have row := Timed.le_downFor due stretch timed down.tail.tail more
            rw [← place] at row
            exact Nat.not_succ_le_self _ row
        rw [attempts_cons, none_, Note.sends, decide_eq_true rfl]
        exact Nat.le_refl 1
      · rw [attempts_sent this]
        exact ih timed.2.2 down.tail
    | scanned matrix => exact ih timed down.tail
    | woken => exact ih timed down.tail
    | delayed => exact ih timed down.tail
    | left => exact ih timed down.tail

theorem keys_told_once {s : Watched}
    (run : Reaches Watched.step (fun _ _ => True) Watched.initial s)
    (keys : List Pos) :
    (∀ later stretch earlier, s.trace = later ++ (stretch ++ earlier) → Throughout keys stretch →
        attempts ⟨.pressed, vkOf keys⟩ stretch ≤ 1 ∧ attempts ⟨.hold, vkOf keys⟩ stretch ≤ 1) ∧
      ∀ later delivered earlier, s.trace = later ++ .sent ⟨.hold, vkOf keys⟩ delivered :: earlier →
        1 + 60 < downFor keys earlier := by
  have timed := timed_reached run
  constructor
  · intro later stretch earlier split down
    rw [split] at timed
    exact ⟨timed.of_append.attempts_le_one rfl stretch down,
      timed.of_append.attempts_le_one rfl stretch down⟩
  intro later delivered earlier split
  rw [split] at timed
  rw [timed.of_append.2.1 keys 62 rfl rfl]
  decide

theorem keys_told_once_released : ∃ s, pressAndRelease.foldlM Watched.step Watched.initial = .ok s ∧
    s.task.scanning = false ∧
    ∀ later stretch earlier, s.trace = later ++ (stretch ++ earlier) → Throughout [(0, 0)] stretch →
      attempts ⟨.pressed, .key01⟩ stretch ≤ 1 := by
  have result : ((pressAndRelease.foldlM Watched.step Watched.initial).toOption.map fun s =>
      s.task.scanning) = some false := by
    decide +kernel
  obtain ⟨s, found, waiting⟩ := Option.map_eq_some_iff.mp result
  have ok := ok_of_toOption found
  refine ⟨s, ok, waiting, fun later stretch earlier split down => ?_⟩
  exact ((keys_told_once (reaches_foldlM (fun _ _ _ => trivial) ok) [(0, 0)]).1 later stretch earlier
    split down).1

end Phy6212.Keyscan
