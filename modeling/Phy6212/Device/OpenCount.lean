import Phy6212.Device.Registry
import Phy6212.Runs.Simulation

/-!
# Users of one device

`device_open_id` asks the driver only for the first user, `device_close` only for the last one; in
between they count in sixteen bits. The result of `device_close` starts as `-EBADF`, so every user
but the last is told that the device was not open (`right_iff`).
-/

namespace Phy6212.Device

open List Runs

def setRef (table : List Slot) (i ref : Nat) : List Slot :=
  table.modify i fun slot => { slot with dev := { slot.dev with ref := ref } }

variable {name : Name} {id : Int} {i : Nat}

theorem modify_dev (ref : Nat) : ∀ (table : List Slot) (i : Nat),
    (table.modify i fun slot => { slot with dev := { (table.getD i {}).dev with ref := ref } }) =
      setRef table i ref
  | [], _ => by simp [setRef]
  | _ :: _, 0 => rfl
  | slot :: table, i + 1 => congrArg (slot :: ·) (modify_dev ref table i)

theorem findLoop_setRef (ref : Nat) : ∀ (table : List Slot) (i k : Nat) (node : Option Nat),
    findLoop name id (setRef table i ref) k node = findLoop name id table k node
  | [], _, _, _ => by simp [setRef]
  | _ :: _, 0, _, _ => rfl
  | slot :: table, i + 1, k, node => by
    show findLoop name id (slot :: setRef table i ref) k node = _
    simp only [findLoop, findLoop_setRef ref table i]

/-- A call on the device. The driver would answer `openRet` to an open. -/
inductive Call where
  | openId (openRet : Int)
  | close
  deriving DecidableEq, Repr

/-- The table; the calls of the driver that opened (`true`) and closed (`false`) the device; the
successful opens less the closes; and for each `-EBADF` whether the device had users. -/
structure Session where
  table : List Slot
  driverCalls : List Bool := []
  users : Nat := 0
  refused : List Bool := []
  deriving DecidableEq, Repr

namespace Session

variable (name id i)

def ref (s : Session) : Nat := (s.table.getD i {}).dev.ref

/-- A call and what it tells. The `close` of the driver returns 0. -/
def step (s : Session) : Call → Except Empty (Unit × Session)
  | .openId openRet =>
    let (dev, table) := deviceOpenId s.table name id openRet
    .ok ((), { s with
      table
      driverCalls := if s.ref i = 0 ∧ openRet = 0 then s.driverCalls ++ [true] else s.driverCalls
      users := if dev.isSome then s.users + 1 else s.users })
  | .close =>
    let (ret, table) := deviceClose s.table i 0
    .ok ((), {
      table
      driverCalls := if s.ref i = 1 then s.driverCalls ++ [false] else s.driverCalls
      users := s.users - 1
      refused := if ret = ebadf then s.refused ++ [decide (0 < s.users)] else s.refused })

/-- Whether a driver is open after calls that open and close it in turn, beginning with an open;
nothing for other calls. -/
def driverOpen (calls : List Bool) : Option Bool :=
  calls.foldlM (fun isOpen call => if call = isOpen then none else some call) false

/-- The driver was opened and closed in turn, it is open exactly while there are users, and
`-EBADF` was returned only without users. -/
def Right (s : Session) : Prop :=
  driverOpen s.driverCalls = some (decide (0 < s.users)) ∧ ∀ open_ ∈ s.refused, open_ = false

/-- A close that is not one of several users', and an open that does not reach the driver again
behind 65536 users. -/
def Fine (s : Session) : Call → Prop
  | .openId openRet => s.users < 65536 ∨ openRet ≠ 0
  | .close => s.users ≤ 1

structure Counted (s : Session) : Prop where
  found : deviceFind s.table name id = some i
  inside : i < s.table.length
  count : s.ref i = s.users % 65536
  atMost : s.users ≤ 65536
  right : s.Right

variable {name id i} {s : Session}

theorem driverOpen_append (calls : List Bool) (call : Bool) :
    driverOpen (calls ++ [call]) =
      (driverOpen calls).bind fun isOpen => if call = isOpen then none else some call := by
  simp [driverOpen, foldlM_append]

theorem dev_ref (s : Session) : (s.table.getD i {}).dev.ref = s.ref i := rfl

theorem step_close :
    s.step name id i .close = .ok ((), {
      table := if 0 < s.ref i then setRef s.table i (s.ref i - 1) else s.table
      driverCalls := if s.ref i = 1 then s.driverCalls ++ [false] else s.driverCalls
      users := s.users - 1
      refused := if s.ref i = 1 then s.refused else s.refused ++ [decide (0 < s.users)] }) := by
  simp only [step, deviceClose, modify_dev, dev_ref]
  by_cases used : 0 < s.ref i
  · by_cases last : s.ref i = 1
    · simp [last, ebadf]
    · simp [used, last]
  · simp [Nat.eq_zero_of_not_pos used]

section

variable (counted : s.Counted name id i)

include counted

theorem step_openId (openRet : Int) :
    s.step name id i (.openId openRet) = .ok ((),
      if s.ref i = 0 ∧ openRet ≠ 0 then s
      else { s with
        table := setRef s.table i ((s.ref i + 1) % 65536)
        driverCalls := if s.ref i = 0 then s.driverCalls ++ [true] else s.driverCalls
        users := s.users + 1 }) := by
  simp only [step, deviceOpenId, counted.found, modify_dev, dev_ref]
  by_cases failed : s.ref i = 0 ∧ openRet ≠ 0
  · simp [failed]
  · have asked : (s.ref i = 0 ∧ openRet = 0) ↔ s.ref i = 0 :=
      ⟨And.left, fun zero => ⟨zero, not_not.mp fun bad => failed ⟨zero, bad⟩⟩⟩
    simp only [if_neg failed, asked, Option.isSome_some, if_true]

theorem Counted.setRef {ref users : Nat} (calls refused : List Bool) (count : ref = users % 65536)
    (atMost : users ≤ 65536) (right : Right ⟨setRef s.table i ref, calls, users, refused⟩) :
    Counted name id i ⟨setRef s.table i ref, calls, users, refused⟩ where
  found := (findLoop_setRef ref s.table i 0 none).trans counted.found
  inside := (length_modify ..).symm ▸ counted.inside
  count := by
    rw [← count]
    simp [Session.ref, Device.setRef, getD_eq_getElem?_getD, counted.inside]
  atMost := atMost
  right := right

theorem Counted.step (call : Call) (fine : s.Fine call) :
    ∃ r s', s.step name id i call = .ok (r, s') ∧ s'.Counted name id i := by
  have count := counted.count
  have atMost := counted.atMost
  obtain ⟨state, refused⟩ := counted.right
  cases call with
  | openId openRet =>
    refine ⟨(), _, step_openId counted openRet, ?_⟩
    split
    · exact counted
    rename_i failed
    have room : s.users < 65536 := by
      by_contra full
      exact failed ⟨by omega, fine.resolve_left full⟩
    refine counted.setRef _ _ (by omega) room ⟨?_, refused⟩
    split
    · rw [driverOpen_append, state, show s.users = 0 by omega]
      rfl
    · simp [state, show 0 < s.users by omega]
  | close =>
    refine ⟨(), _, step_close, ?_⟩
    rcases Nat.le_one_iff_eq_zero_or_eq_one.mp fine with none_ | one
    · have zero : s.ref i = 0 := by omega
      simp only [zero, none_, Nat.lt_irrefl, if_false, Nat.zero_ne_one]
      refine ⟨counted.found, counted.inside, zero, Nat.zero_le _, ?_, ?_⟩
      · rwa [none_] at state
      · simpa [or_imp, forall_and] using refused
    · have last : s.ref i = 1 := by omega
      simp only [last, one, Nat.one_pos, if_true]
      refine counted.setRef _ _ rfl (Nat.zero_le _) ⟨?_, refused⟩
      rw [driverOpen_append, state, one]
      rfl

theorem Counted.fine {call : Call} {r : Unit} {s' : Session}
    (ok : s.step name id i call = .ok (r, s')) (right : s'.Right) : s.Fine call := by
  have count := counted.count
  have atMost := counted.atMost
  by_contra fine
  cases call with
  | openId openRet =>
    obtain ⟨full, good⟩ := not_or.mp fine
    have same := step_openId counted openRet
    rw [ok, if_neg fun failed => good failed.2, if_pos (by omega)] at same
    cases same
    -- the driver is opened although it is open
    have broken := right.1
    rw [driverOpen_append, counted.right.1, decide_eq_true (show 0 < s.users by omega)] at broken
    cases broken
  | close =>
    have several := Nat.lt_of_not_le fine
    have notLast : s.ref i ≠ 1 := by omega
    have same := ok.symm.trans step_close
    rw [if_neg notLast, if_neg notLast] at same
    cases same
    have told := right.2 (decide (0 < s.users)) (by simp)
    exact of_decide_eq_false told (Nat.zero_lt_of_lt several)

end

end Session

/-- **When the users of a device see what its driver does**: exactly when no device is closed that
has several users, and none is opened by its driver behind 65536 users. -/
theorem right_iff (name : Name) (id : Int) (i : Nat) (table : List Slot) (calls : List Call)
    (found : deviceFind table name id = some i) (inside : i < table.length)
    (unopened : (table.getD i {}).dev.ref = 0) :
    Upheld (Session.step name id i) Session.Right ⟨table, [], 0, []⟩ calls ↔
      Guarded (Session.step name id i) Session.Fine ⟨table, [], 0, []⟩ calls := by
  refine upheld_iff_guarded (Session.Counted name id i) (fun s counted => counted.right)
    (fun s call counted fine => counted.step call fine)
    (fun s call r s' counted ok right => counted.fine ok right) calls _ ?_
  exact ⟨found, inside, unopened, Nat.zero_le _, rfl, by simp⟩

def uartTable : List Slot :=
  ⟨true, { drv := some ⟨[117, 97, 114, 116]⟩ }⟩ :: replicate 3 {}

theorem right_iff_uart :
    Upheld (Session.step [117, 97, 114, 116] 0 0) Session.Right ⟨uartTable, [], 0, []⟩
      [.openId 0, .close, .openId (-1), .close] :=
  (right_iff [117, 97, 114, 116] 0 0 uartTable _ rfl (by decide) rfl).mpr (by
    simp [Guarded, Session.Fine, Session.step, deviceOpenId, deviceClose, deviceFind, findLoop,
      uartTable, Dev.matches, Session.ref])

/-- **The first of two users is told that the device was not open**: it is opened twice, and the
first close returns `-EBADF`. -/
theorem close_refuses_user :
    ∃ rs s, run (Session.step [117, 97, 114, 116] 0 0) ⟨uartTable, [], 0, []⟩
        [.openId 0, .openId 0, .close] = .ok (rs, s) ∧
      s.driverCalls = [true] ∧ s.users = 1 ∧ s.refused = [true] ∧ ¬ s.Right :=
  ⟨_, _, rfl, rfl, rfl, rfl, fun right => by simpa using right.2 true (by decide)⟩

end Phy6212.Device
