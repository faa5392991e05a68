import Phy6212.Gap.Bond

/-!
# Advertising and the end of a bond

At power-on `rcu_ble_start_adversting` finds no bond record, so the advertising is undirected
(`powerOn_right_iff`).
-/

namespace Phy6212.Gap

inductive StartReason where
  | powerOn
  | powerKey
  | timeout
  | pairingKey
  | reconnect
  deriving DecidableEq, Repr

def advPairingTimeout : Nat := 30000

def startAdv (answers : Answers) (param : AdvParam) (timeout : Nat) (s : Ble) : Int × Ble :=
  if answers.advStart = 0 then
    let s := { s with state := .advertising, adType := param.type, onAir := some param }
    (0, if param.type ≠ .advDirectInd then { s with advTimer := some timeout } else s)
  else (answers.advStart, s)

def defaultParam : AdvParam := ⟨.advInd, .anyReq, .zero, .appAdvData⟩

def directedParam (peer : DevAddr) : AdvParam :=
  { defaultParam with type := .advDirectInd, filterPolicy := .allReq, directPeerAddr := peer }

def chooseParam (len : Int) (reson : StartReason) (s : Ble) : AdvParam × Ble :=
  match reson with
  | .powerOn =>
    let (loaded, s) := bondInfoLoad len s
    (if loaded && s.bondInfo.isBonded then directedParam s.bondInfo.remoteAddr else defaultParam, s)
  | .powerKey => ({ defaultParam with ad := .appAdvDataPower }, s)
  | .pairingKey => (defaultParam, s)
  | .reconnect =>
    (if s.bondInfo.isBonded then directedParam s.bondInfo.remoteAddr else defaultParam, s)
  | .timeout => (defaultParam, s)

def rcuBleStartAdversting (answers : Answers) (len : Int) (reson : StartReason) (s : Ble) :
    Int × Ble :=
  match s.state with
  | .advertising =>
    if s.adType = .advDirectInd then (0, s)
    else (0, { s with advTimer := some advPairingTimeout })
  | .idle =>
    let (param, s) := chooseParam len reson s
    startAdv answers param advPairingTimeout s
  | _ => (-100, s)

def clearLink (answers : Answers) (s : Ble) : Except Int Ble :=
  match s.state with
  | .paired | .connected => if answers.disconnect ≠ 0 then .error (-1) else .ok s
  | .advertising =>
    if answers.advStop ≠ 0 then .error (-2)
    else .ok { s with state := .idle, advTimer := none, onAir := none }
  | _ => .ok s

def clearBond (answers : Answers) (s : Ble) : Ble :=
  if s.bondInfo.isBonded then (bondInfoRemove answers s).2 else s

def rcuBleClearPairing (answers : Answers) (len : Int) (s : Ble) : Int × Ble :=
  match clearLink answers s with
  | .error e => (e, s)
  | .ok s => rcuBleStartAdversting answers len .pairingKey (clearBond answers s)

inductive BleEvent where
  | connected (connHandle : Int)
  | disconnected (err : Int)
  | pairingComplete (err : Int) (peerAddr : DevAddr) (bonded : Bool)
  | advTimeout
  | advTimer
  deriving DecidableEq, Repr

/-- `gap_event_conn_change`. -/
def gapEventConnected (connHandle : Int) (s : Ble) : Ble :=
  { s with connHandle := connHandle, state := .connected, advTimer := none, onAir := none }

@[inherit_doc gapEventConnected]
def gapEventDisconnected (answers : Answers) (len : Int) (err : Int) (s : Ble) : Ble :=
  let s := { s with connHandle := -1, state := .idle }
  if err = 19 ∨ err = 22 then s else (rcuBleStartAdversting answers len .reconnect s).2

def gapEventSmpPairingComplete (answers : Answers) (err : Int) (peerAddr : DevAddr) (bonded : Bool)
    (s : Ble) : Ble :=
  if err = 0 then
    let s := { s with state := .paired, pairedAddr := peerAddr }
    if bonded then (bondInfoSave answers peerAddr s).2 else s
  else (bondInfoRemove answers s).2

def gapEventAdvTimeout (answers : Answers) (len : Int) (s : Ble) : Ble :=
  if s.adType = .advDirectInd then
    (rcuBleStartAdversting answers len .timeout { s with state := .idle, onAir := none }).2
  else s

def advTimerCallback (answers : Answers) (s : Ble) : Ble :=
  let s := { s with advTimer := none }
  if s.state = .advertising then
    if answers.advStop = 0 then { s with state := .idle, onAir := none } else s
  else s

def gapEventCallback (answers : Answers) (len : Int) (event : BleEvent) (s : Ble) : Ble :=
  match event with
  | .connected connHandle => gapEventConnected connHandle s
  | .disconnected err => gapEventDisconnected answers len err s
  | .pairingComplete err peerAddr bonded =>
    gapEventSmpPairingComplete answers err peerAddr bonded s
  | .advTimeout => gapEventAdvTimeout answers len s
  | .advTimer => advTimerCallback answers s

def DirectedTo (s : Ble) (peer : DevAddr) : Prop :=
  ∃ param, s.onAir = some param ∧ param.type = .advDirectInd ∧ param.directPeerAddr = peer

def Undirected (s : Ble) : Prop :=
  s.state = .advertising ∧ s.adType = .advInd ∧ ∃ param, s.onAir = some param ∧ param.type = .advInd

def Ble.initial : Ble where
  state := .idle
  adType := .advInd
  connHandle := 0
  pairedAddr := .zero
  bondInfo := ⟨false, .zero⟩
  stored := none
  advTimer := none
  onAir := none

def Ble.reboot (s : Ble) : Ble := { Ble.initial with stored := s.stored }

inductive BondCall where
  | save (peer : DevAddr)
  | remove
  deriving DecidableEq, Repr

def BondCall.perform (s : Ble) : BondCall → Ble
  | .save peer => (bondInfoSave .success peer s).2
  | .remove => (bondInfoRemove .success s).2

/-- The peer of the last save, when no remove followed it. -/
def lastBond (history : List BondCall) : Option DevAddr :=
  match history.getLast? with
  | some (.save peer) => some peer
  | _ => none

def afterPowerOn (history : List BondCall) (len : Int) : Ble :=
  (rcuBleStartAdversting .success len .powerOn
    (history.foldl BondCall.perform Ble.initial).reboot).2

def PowerOnRight (history : List BondCall) (len : Int) : Prop :=
  match lastBond history with
  | some peer => DirectedTo (afterPowerOn history len) peer
  | none => Undirected (afterPowerOn history len)

theorem storesRecord_history (history : List BondCall) (s : Ble) (records : StoresRecord s) :
    StoresRecord (history.foldl BondCall.perform s) := by
  induction history generalizing s with
  | nil => exact records
  | cons call history ih =>
    apply ih
    cases call with
    | save peer => exact .inr ⟨_, rfl⟩
    | remove => exact .inr ⟨_, rfl⟩

theorem afterPowerOn_onAir (history : List BondCall) (len : Int) :
    (afterPowerOn history len).onAir = some defaultParam ∧ Undirected (afterPowerOn history len) := by
  have records : StoresRecord (history.foldl BondCall.perform Ble.initial).reboot :=
    storesRecord_history history Ble.initial (.inl rfl)
  have refused := bondInfoLoad_fails records len
  have idle : (history.foldl BondCall.perform Ble.initial).reboot.state = .idle := rfl
  have chosen : (chooseParam len .powerOn
      (history.foldl BondCall.perform Ble.initial).reboot).1 = defaultParam := by
    unfold chooseParam
    simp only [refused, Bool.false_and]
    rfl
  have started : afterPowerOn history len = (startAdv .success defaultParam advPairingTimeout
      (chooseParam len .powerOn (history.foldl BondCall.perform Ble.initial).reboot).2).2 := by
    rw [← chosen]
    unfold afterPowerOn rcuBleStartAdversting
    rw [idle]
  rw [started]
  exact ⟨rfl, rfl, rfl, defaultParam, rfl, rfl⟩

/-- **The advertising at power-on follows the bond** exactly when there is none. -/
theorem powerOn_right_iff (history : List BondCall) (len : Int) :
    PowerOnRight history len ↔ lastBond history = none := by
  obtain ⟨onAir, undirected⟩ := afterPowerOn_onAir history len
  unfold PowerOnRight
  cases last : lastBond history with
  | none => exact iff_of_true undirected rfl
  | some peer =>
    refine iff_of_false ?_ (fun impossible => by cases impossible)
    rintro ⟨param, same, directed, -⟩
    rw [onAir, Option.some.injEq] at same
    subst same
    cases directed

/-- A peer is saved, and after a reboot the advertising is not directed to it. -/
theorem saved_bond_ignored : ¬ PowerOnRight [.save ⟨1, #v[1, 2, 3, 4, 5, 6]⟩] 8 := by
  rintro ⟨param, onAir, directed, -⟩
  rw [(afterPowerOn_onAir _ 8).1, Option.some.injEq] at onAir
  subst onAir
  cases directed

/-- When the event that ends the connection is handled, while `rcu_ble_clear_pairing` runs
or after it. -/
inductive Moment where
  | beforeBond
  | beforeAdvertising
  | afterReturn
  deriving DecidableEq, Repr

def handleEnd (answers : Answers) (len : Int) (due : Bool) (s : Ble) : Ble :=
  if due then gapEventDisconnected answers len 22 s else s

/-- `rcu_ble_clear_pairing` with the event at the given moment. -/
def clearWithEvent (answers : Answers) (len : Int) (moment : Moment) (s : Ble) : Ble :=
  match clearLink answers s with
  | .error _ => s
  | .ok s' =>
    let due : Moment → Bool := fun now =>
      moment = now && (s.state = .connected || s.state = .paired)
    let s' := handleEnd answers len (due .beforeBond) s'
    let s' := handleEnd answers len (due .beforeAdvertising) (clearBond answers s')
    handleEnd answers len (due .afterReturn) (rcuBleStartAdversting answers len .pairingKey s').2

def Bonded (s : Ble) : Prop :=
  s.bondInfo.isBonded = true ∨ ∃ record, s.stored = some record ∧ (BondInfo.ofBytes record).isBonded = true

def Cleared (s : Ble) : Prop := ¬ Bonded s ∧ Undirected s

/-- The state before the call lets it do its work: there is no connection, or its end is
handled before the last step; and a bond in the store is known in memory. -/
def Clearable (moment : Moment) (s : Ble) : Prop :=
  (s.state = .idle ∨ s.state = .advertising ∨
    (s.state = .connected ∨ s.state = .paired) ∧ moment ≠ .afterReturn) ∧
  (s.bondInfo.isBonded = true ∨ ¬ Bonded s)

theorem clearBond_bonded (s : Ble) :
    Bonded (clearBond .success s) ↔ ¬ (s.bondInfo.isBonded = true ∨ ¬ Bonded s) := by
  unfold clearBond
  cases flag : s.bondInfo.isBonded with
  | false => simp
  | true =>
    refine iff_of_false ?_ (fun neither => neither (.inl rfl))
    rintro (inMemory | ⟨record, stored, inStore⟩)
    · exact absurd (show false = true from inMemory) (by decide)
    have same : some ({ s.bondInfo with isBonded := false }.bytes) = some record := stored
    rw [Option.some.injEq] at same
    subst same
    simp [BondInfo.ofBytes, BondInfo.bytes] at inStore

theorem clearBond_state (s : Ble) : (clearBond .success s).state = s.state := by
  unfold clearBond
  split <;> rfl

variable {s : Ble}

theorem startPairing_idle (idle : s.state = .idle) (len : Int) :
    Undirected (rcuBleStartAdversting .success len .pairingKey s).2 ∧
      (Bonded (rcuBleStartAdversting .success len .pairingKey s).2 ↔ Bonded s) := by
  unfold rcuBleStartAdversting
  rw [idle]
  exact ⟨⟨rfl, rfl, defaultParam, rfl, rfl⟩, Iff.rfl⟩

theorem startPairing_refused (notIdle : s.state ≠ .idle) (notAdvertising : s.state ≠ .advertising)
    (len : Int) : (rcuBleStartAdversting .success len .pairingKey s).2 = s := by
  unfold rcuBleStartAdversting
  split <;> simp_all

theorem cleared_of_idle (idle : s.state = .idle) (len : Int) :
    Cleared (rcuBleStartAdversting .success len .pairingKey (clearBond .success s)).2 ↔
      s.bondInfo.isBonded = true ∨ ¬ Bonded s := by
  obtain ⟨undirected, bond⟩ := startPairing_idle ((clearBond_state s).trans idle) len
  unfold Cleared
  rw [bond, clearBond_bonded, not_not]
  exact and_iff_left undirected

theorem clears_connected (linked : s.state = .connected ∨ s.state = .paired) (len : Int)
    (moment : Moment) :
    Cleared (clearWithEvent .success len moment s) ↔
      moment ≠ .afterReturn ∧ (s.bondInfo.isBonded = true ∨ ¬ Bonded s) := by
  have link : clearLink .success s = .ok s := by
    unfold clearLink
    rcases linked with state | state <;> rw [state] <;> rfl
  have isLinked : (decide (s.state = .connected) || decide (s.state = .paired)) = true := by
    simpa using linked
  unfold clearWithEvent
  rw [link]
  simp only [isLinked, Bool.and_true]
  cases moment with
  | beforeBond =>
    have idle := cleared_of_idle (s := gapEventDisconnected .success len 22 s) rfl len
    exact idle.trans (and_iff_right (by decide)).symm
  | beforeAdvertising =>
    obtain ⟨undirected, bond⟩ := startPairing_idle
      (s := gapEventDisconnected .success len 22 _) rfl len
    have removed := bond.trans (clearBond_bonded s)
    refine Iff.trans ?_ (and_iff_right (by decide)).symm
    exact (and_iff_left undirected).trans ((not_congr removed).trans not_not)
  | afterReturn =>
    refine iff_of_false ?_ (fun early => early.1 rfl)
    rintro ⟨-, advertising, -⟩
    exact absurd (show GapState.idle = .advertising from advertising) (by decide)

/-- **Clearing the bond works** exactly when the state before the call lets it. -/
theorem clears_iff (len : Int) (moment : Moment) (s : Ble) :
    Cleared (clearWithEvent .success len moment s) ↔ Clearable moment s := by
  cases state : s.state with
  | idle =>
    have result : clearWithEvent .success len moment s =
        (rcuBleStartAdversting .success len .pairingKey (clearBond .success s)).2 := by
      simp [clearWithEvent, clearLink, handleEnd, state]
    rw [result, cleared_of_idle state]
    simp [Clearable, state]
  | advertising =>
    have result : clearWithEvent .success len moment s =
        (rcuBleStartAdversting .success len .pairingKey
          (clearBond .success { s with state := .idle, advTimer := none, onAir := none })).2 := by
      simp [clearWithEvent, clearLink, handleEnd, state, Answers.success]
    rw [result, cleared_of_idle rfl]
    show s.bondInfo.isBonded = true ∨ ¬ Bonded s ↔ _
    simp [Clearable, state]
  | connected =>
    rw [clears_connected (.inl state)]
    simp [Clearable, state]
  | paired =>
    rw [clears_connected (.inr state)]
    simp [Clearable, state]
  | stopAdvertising =>
    have result : clearWithEvent .success len moment s = clearBond .success s := by
      simp [clearWithEvent, clearLink, handleEnd, state, startPairing_refused, clearBond_state]
    rw [result]
    simp [Cleared, Undirected, clearBond_state, Clearable, state]
  | disconneted =>
    have result : clearWithEvent .success len moment s = clearBond .success s := by
      simp [clearWithEvent, clearLink, handleEnd, state, startPairing_refused, clearBond_state]
    rw [result]
    simp [Cleared, Undirected, clearBond_state, Clearable, state]

def connectedBonded : Ble :=
  { Ble.initial with
    state := .connected
    connHandle := 1
    bondInfo := ⟨true, ⟨1, #v[1, 2, 3, 4, 5, 6]⟩⟩
    stored := some (BondInfo.bytes ⟨true, ⟨1, #v[1, 2, 3, 4, 5, 6]⟩⟩) }

/-- From a connection the device ends up idle: it does not advertise. -/
theorem connected_not_advertising :
    ¬ Cleared (clearWithEvent .success 0 .afterReturn connectedBonded) := by
  rintro ⟨-, advertising, -⟩
  exact absurd (show GapState.idle = .advertising from advertising) (by decide)

end Phy6212.Gap
