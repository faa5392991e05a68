import Phy6212.Gap.Advertising
import Phy6212.Keyscan.Task

/-!
# From the keys to the host

`on_msg_key` acts on the messages of the key task: some keys start to advertise or clear the bond,
and while connected a message leads to a report, a key that is down for `MSG_KEYSCAN_KEY_PRESSED`
and the release otherwise.
-/

namespace Phy6212.Keyscan

open Gap

structure PressKeyData where
  keydata : UInt8
  rsv : UInt8
  code1 : UInt8
  code2 : UInt8
  code3 : UInt8
  code4 : UInt8
  code5 : UInt8
  code6 : UInt8
  deriving DecidableEq, Repr

def oneCode (code1 : UInt8) : PressKeyData := ⟨0, 0, code1, 0, 0, 0, 0, 0⟩

def noCode : PressKeyData := oneCode 0

/-- `rcu_key_map_table`, without the codes for the infrared sender. -/
def rcuKeyMapTable : List (Vk × PressKeyData) :=
  [(.key01, oneCode 0x66), (.key08, oneCode 0x7F), (.key13, oneCode 0x4A), (.key09, oneCode 0x76),
    (.key12, oneCode 0x1E), (.key11, oneCode 0x1A), (.key06, oneCode 0x52), (.key07, oneCode 0x51),
    (.key05, oneCode 0x50), (.key02, oneCode 0x4F), (.key03, oneCode 0x58), (.key10, oneCode 0x29),
    (.key04, oneCode 0x75)]

def getHidKey (vk : Vk) : Option PressKeyData := rcuKeyMapTable.lookup vk

def hidKeyBoardSend (ble : Ble) (data : PressKeyData) : Option PressKeyData :=
  if ble.connHandle ≠ -1 then some data else none

def rcuSendHidKeyDown (ble : Ble) (vk : Vk) : Option PressKeyData :=
  (getHidKey vk).bind (hidKeyBoardSend ble)

def rcuSendHidKeyRelease (ble : Ble) : Option PressKeyData := hidKeyBoardSend ble noCode

/-- `on_msg_key`: the device after it, and the report. -/
def onMsgKey (answers : Answers) (len : Int) (vk : Vk) (state : KeyMsg) (ble : Ble) :
    Ble × Option PressKeyData :=
  let ble :=
    if vk = .key01 ∧ state = .pressed ∧ (ble.state ≠ .connected ∨ ble.state ≠ .paired) then
      (rcuBleStartAdversting answers len .powerKey ble).2
    else ble
  let ble :=
    if vk = .func1 ∧ state = .pressed then (rcuBleStartAdversting answers len .pairingKey ble).2
    else if vk = .func1 ∧ state = .hold then (rcuBleClearPairing answers len ble).2
    else ble
  if ble.state = .paired ∨ ble.state = .connected then
    if state = .pressed then (ble, rcuSendHidKeyDown ble vk)
    else (ble, rcuSendHidKeyRelease ble)
  else (ble, none)

def Linked (ble : Ble) : Prop :=
  (ble.state = .connected ∨ ble.state = .paired) ∧ ble.connHandle ≠ -1

instance (ble : Ble) : Decidable (Linked ble) := inferInstanceAs (Decidable (_ ∧ _))

section Linked

variable {ble : Ble} (linked : Linked ble)

include linked

theorem startAdversting_linked (answers : Answers) (len : Int) (reson : StartReason) :
    (rcuBleStartAdversting answers len reson ble).2 = ble := by
  unfold rcuBleStartAdversting
  rcases linked.1 with state | state <;> rw [state]

theorem clearPairing_linked (answers : Answers) (len : Int) :
    Linked (rcuBleClearPairing answers len ble).2 := by
  have bond : Linked (clearBond answers ble) := by
    unfold clearBond bondInfoRemove Ble.setBonded Ble.storeBond
    repeat' split
    all_goals exact linked
  have link : clearLink answers ble = .error (-1) ∨ clearLink answers ble = .ok ble := by
    unfold clearLink
    rcases linked.1 with state | state <;> rw [state] <;> simp only
    all_goals
      split
      · exact .inl rfl
      · exact .inr rfl
  unfold rcuBleClearPairing
  rcases link with refused | ended
  · rw [refused]
    exact linked
  · rw [ended]
    simp only [startAdversting_linked bond]
    exact bond

end Linked

def reportOf (msg : Msg) : Option PressKeyData :=
  if msg.subtype = .pressed then getHidKey msg.param else some noCode

theorem onMsgKey_linked {ble : Ble} (linked : Linked ble) (answers : Answers) (len : Int)
    (msg : Msg) :
    Linked (onMsgKey answers len msg.param msg.subtype ble).1 ∧
      (onMsgKey answers len msg.param msg.subtype ble).2 = reportOf msg := by
  have send : ∀ {ble : Ble}, Linked ble → ∀ data, hidKeyBoardSend ble data = some data :=
    fun linked _ => if_pos linked.2
  have last : ∀ {ble : Ble}, Linked ble →
      (if ble.state = .paired ∨ ble.state = .connected then
        if msg.subtype = .pressed then (ble, rcuSendHidKeyDown ble msg.param)
        else (ble, rcuSendHidKeyRelease ble)
      else (ble, none)) = (ble, reportOf msg) := by
    intro ble linked
    rw [if_pos linked.1.symm]
    unfold reportOf rcuSendHidKeyDown rcuSendHidKeyRelease
    split
    · cases getHidKey msg.param with
      | none => rfl
      | some data => rw [Option.bind_some, send linked]
    · rw [send linked]
  unfold onMsgKey
  simp only [startAdversting_linked linked, ite_self]
  split
  · rw [last linked]
    exact ⟨linked, rfl⟩
  split
  · have cleared := clearPairing_linked linked answers len
    rw [last cleared]
    exact ⟨cleared, rfl⟩
  · rw [last linked]
    exact ⟨linked, rfl⟩

/-- A message in the queue, with the number of scans made when it was sent and the number of
its session. -/
structure Posted where
  msg : Msg
  stamp : Nat
  session : Nat
  deriving DecidableEq, Repr

/-- A report, with its message and the number of scans made when it was sent. -/
structure Reported where
  post : Posted
  data : PressKeyData
  seen : Nat
  deriving DecidableEq, Repr

/-- The key task, the device and the queue of messages. For an observer the system keeps the
number of the session, the readings of all scans, and the messages and reports so far, the
first one first. -/
structure System where
  task : Task
  ble : Ble
  queue : List Posted
  session : Nat
  scans : List Matrix
  handled : List Posted
  reports : List Reported

inductive Action where
  | wake
  | scan (matrix : Matrix)
  | handle (answers : Answers) (len : Int)
  | event (answers : Answers) (len : Int) (event : BleEvent)

inductive NotReady where
  | scanning
  | waiting
  | empty
  deriving DecidableEq, Repr

def sentMsgs (notes : List Note) : List Msg :=
  notes.filterMap fun
    | .sent msg true => some msg
    | _ => none

/-- One step of the system. All messages get through, and all reports are sent. -/
def System.step (s : System) : Action → Except NotReady System
  | .wake =>
    if s.task.scanning then .error .scanning
    else .ok { s with
      task := { s.task with isVkPressed := false, scanning := true }
      session := s.session + 1 }
  | .scan matrix =>
    if s.task.scanning then
      let (notes, task) := s.task.round matrix delivered
      .ok { s with
        task := task
        scans := s.scans ++ [matrix]
        queue := s.queue ++ (sentMsgs notes).map (⟨·, s.scans.length + 1, s.session⟩) }
    else .error .waiting
  | .handle answers len =>
    match s.queue with
    | [] => .error .empty
    | post :: queue =>
      let (ble, report) := onMsgKey answers len post.msg.param post.msg.subtype s.ble
      .ok { s with
        ble := ble
        queue := queue
        handled := s.handled ++ [post]
        reports := s.reports ++ (report.map (⟨post, ·, s.scans.length⟩)).toList }
  | .event answers len event => .ok { s with ble := gapEventCallback answers len event s.ble }

def System.initial (ble : Ble) : System := ⟨Task.initial, ble, [], 0, [], [], []⟩

def StaysLinked (s : System) : Action → Prop
  | .event answers len event => Linked (gapEventCallback answers len event s.ble)
  | _ => True

end Phy6212.Keyscan
