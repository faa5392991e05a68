import Mathlib.Data.List.FinRange
import Phy6212.Runs.Reach

/-!
# The button service

A pin interrupt disables the interrupt of its button, marks it and starts the timer that all buttons
share (`buttonIrq`).
-/

namespace Phy6212.ButtonSrv

inductive State where
  | none
  | start
  | cnt
  | high
  | ended
  deriving DecidableEq, Repr

inductive EvtId where
  | pressDown
  | pressUp
  | pressLongDown
  | pressDouble
  | evtEnd
  deriving DecidableEq, Repr

def EvtId.bit : EvtId → Nat
  | .pressDown => 0
  | .pressUp => 1
  | .pressLongDown => 2
  | .pressDouble => 3
  | .evtEnd => 4

def lowLevel : Int := 0

def highLevel : Int := 1

structure Param where
  stTmout : Int
  ldTmout : Int
  ddTmout : Int
  activeLevel : Int
  deriving DecidableEq, Repr

def buttonParamInit : Param := ⟨60, 2000, 1000, lowLevel⟩

structure Button where
  tMs : Int
  stMs : Int
  pinId : Int
  repeated : Bool
  state : State
  evtId : EvtId
  oldEvtId : EvtId
  active : Bool
  irqFlag : Bool
  evtFlag : Nat
  param : Param
  deriving DecidableEq, Repr

/-- What the buttons share: the timer, the interrupt enables of the pins, and the calls of
the users so far. -/
structure Shared where
  armed : Bool
  enabled : Int → Bool
  calls : List (EvtId × Int)

namespace Shared

def timerStart (g : Shared) : Shared := { g with armed := true }

def timerStop (g : Shared) : Shared := { g with armed := false }

def irqEnable (g : Shared) (pin : Int) : Shared :=
  { g with enabled := Function.update g.enabled pin true }

def irqDisable (g : Shared) (pin : Int) : Shared :=
  { g with enabled := Function.update g.enabled pin false }

def buttonEvt (g : Shared) (b : Button) : Shared :=
  if b.evtFlag.testBit b.evtId.bit then { g with calls := g.calls ++ [(b.evtId, b.pinId)] } else g

variable {g : Shared} {pin pin' : Int}

@[simp] theorem irqEnable_self : (g.irqEnable pin).enabled pin = true := by
  simp [irqEnable]

theorem irqEnable_ne (other : pin' ≠ pin) : (g.irqEnable pin).enabled pin' = g.enabled pin' := by
  simp [irqEnable, other]

@[simp] theorem irqDisable_self : (g.irqDisable pin).enabled pin = false := by
  simp [irqDisable]

theorem irqDisable_ne (other : pin' ≠ pin) : (g.irqDisable pin).enabled pin' = g.enabled pin' := by
  simp [irqDisable, other]

end Shared

def reset (b : Button) : Button := { b with state := .none, active := false }

def noneHdl (b : Button) (level : Int) (g : Shared) : Button × Shared :=
  if level = b.param.activeLevel then ({ b with state := .start }, g.timerStart)
  else (b, g.irqEnable b.pinId)

def startHdl (b : Button) (level now : Int) (g : Shared) : Button × Shared :=
  if level = b.param.activeLevel then
    (if b.param.stTmout ≤ now - b.stMs then { b with state := .cnt } else b, g.timerStart)
  else (reset b, g.irqEnable b.pinId)

def cntHdl (b : Button) (level now : Int) (g : Shared) : Button × Shared :=
  if level = b.param.activeLevel then
    (if b.param.ldTmout ≤ now - b.stMs then
      { b with state := .high, active := true, evtId := .pressLongDown } else b, g.timerStart)
  else
    ({ b with state := .high, active := true, evtId := .pressDown, oldEvtId := .pressDown },
      g.timerStart)

def highHdl (b : Button) (level now : Int) (g : Shared) : Button × Shared :=
  if level = highLevel then
    ({ b with
        state := .ended
        active := true
        evtId := if b.evtId = .pressLongDown then .evtEnd else .pressUp
        tMs := if b.oldEvtId = .pressDown then now else b.tMs }, g.irqEnable b.pinId)
  else (b, g.timerStart)

def updateRepeat (b : Button) (now : Int) : Button :=
  if b.state = .none ∧ b.oldEvtId = .pressDown ∧ b.evtFlag.testBit EvtId.pressDouble.bit then
    { b with repeated := decide (now - b.tMs < b.param.ddTmout) }
  else b

def eventCall (b : Button) (g : Shared) : Button × Shared :=
  if b.active then
    if b.repeated = false then
      let b' := { b with active := false }
      (if b.state = .ended then reset b' else b', g.buttonEvt b)
    else
      let b₁ := if b.evtId = .pressDown ∨ b.evtId = .pressLongDown then
        { b with evtId := .pressDouble, oldEvtId := .pressDouble } else b
      let b' := { b₁ with repeated := false }
      (if b.state = .ended then reset b' else b', g.buttonEvt b')
  else (b, g)

def stateHdl (b : Button) (level now : Int) (g : Shared) : Button × Shared :=
  match b.state with
  | .none => noneHdl b level g
  | .start => startHdl b level now g
  | .cnt => cntHdl b level now g
  | .high => highHdl b level now g
  | .ended => (reset b, g)

def Button.Busy (b : Button) : Prop := b.irqFlag = true ∨ b.state ≠ .none

instance (b : Button) : Decidable b.Busy := inferInstanceAs (Decidable (_ ∨ _))

def Button.Pressed (b : Button) : Prop := b.state ≠ .none ∧ b.state ≠ .ended

instance (b : Button) : Decidable b.Pressed := inferInstanceAs (Decidable (_ ∧ _))

def Button.restarts (b : Button) (level : Int) : Bool :=
  match b.state with
  | .none | .start => level = b.param.activeLevel
  | .cnt => true
  | .high => level ≠ highLevel
  | .ended => false

/-- Where the callback of the timer is: outside; before a button with the number of those
handled so far; and in the handling of a button, before the reading of its pin, the stop of
the timer, the handler, the call of the user, and the removal of the mark. -/
inductive Phase (n : Nat) where
  | idle
  | examine (i cnt : Nat)
  | sample (i : Fin n) (cnt : Nat)
  | stop (i : Fin n) (cnt : Nat) (level : Int)
  | handle (i : Fin n) (cnt : Nat) (level : Int)
  | call (i : Fin n) (cnt : Nat)
  | clear (i : Fin n) (cnt : Nat)
  deriving DecidableEq, Repr

structure Service (n : Nat) where
  buttons : Fin n → Button
  shared : Shared
  phase : Phase n

/-- What may happen next: the interrupt of the pin of a button, the expiry of the timer, and a
step of its callback, with the clock and the level of the pin that it may read. -/
inductive Action (n : Nat) where
  | interrupt (j : Fin n) (now : Int)
  | expire
  | work (now : Int) (high : Bool)
  deriving DecidableEq, Repr

inductive Refused where
  | masked
  | stopped
  | idle
  deriving DecidableEq, Repr

namespace Service

variable {n : Nat}

def pin (s : Service n) (j : Fin n) : Int := (s.buttons j).pinId

def put (s : Service n) (i : Fin n) (b : Button) (g : Shared) (phase : Phase n) : Service n :=
  ⟨Function.update s.buttons i b, g, phase⟩

def buttonFind (s : Service n) (pin : Int) : Option (Fin n) :=
  (List.finRange n).find? fun j => s.pin j = pin

def buttonIrq (s : Service n) (k : Fin n) (now : Int) : Service n :=
  s.put k { s.buttons k with irqFlag := true, stMs := now }
    (s.shared.irqDisable (s.pin k)).timerStart s.phase

def pinEvent (s : Service n) (pin : Int) (now : Int) : Service n :=
  match s.buttonFind pin with
  | none => s
  | some k => s.buttonIrq k now

def work (s : Service n) (now : Int) (high : Bool) : Except Refused (Service n) :=
  match s.phase with
  | .idle => .error .idle
  | .examine i cnt =>
    if inside : i < n then
      if (s.buttons ⟨i, inside⟩).Busy then .ok { s with phase := .sample ⟨i, inside⟩ cnt }
      else .ok { s with phase := .examine (i + 1) cnt }
    else .ok { s with
      shared := if cnt = 0 then s.shared.timerStop else s.shared
      phase := .idle }
  | .sample i cnt =>
    .ok (s.put i (updateRepeat (s.buttons i) now) s.shared
      (.stop i cnt (if high then highLevel else lowLevel)))
  | .stop i cnt level => .ok { s with shared := s.shared.timerStop, phase := .handle i cnt level }
  | .handle i cnt level =>
    let (b, g) := stateHdl (s.buttons i) level now s.shared
    .ok (s.put i b g (.call i cnt))
  | .call i cnt =>
    let (b, g) := eventCall (s.buttons i) s.shared
    .ok (s.put i b g (.clear i cnt))
  | .clear i cnt =>
    .ok (s.put i { s.buttons i with irqFlag := false } s.shared (.examine (i + 1) (cnt + 1)))

/-- One action. A pin whose interrupt is disabled does not interrupt, and the timer expires
once for each start. -/
def step (s : Service n) : Action n → Except Refused (Service n)
  | .interrupt j now => if s.shared.enabled (s.pin j) then .ok (s.pinEvent (s.pin j) now)
      else .error .masked
  | .expire =>
    if s.shared.armed = true ∧ s.phase = .idle then
      .ok { s with shared := s.shared.timerStop, phase := .examine 0 0 }
    else .error .stopped
  | .work now high => s.work now high

end Service

structure Config where
  pinId : Int
  evtFlag : Nat
  param : Param := buttonParamInit
  deriving DecidableEq, Repr

def Config.button (c : Config) : Button where
  tMs := 0
  stMs := 0
  pinId := c.pinId
  repeated := false
  state := .none
  evtId := .evtEnd
  oldEvtId := .evtEnd
  active := false
  irqFlag := false
  evtFlag := c.evtFlag
  param := c.param

def Service.init {n : Nat} (configs : Fin n → Config) : Service n where
  buttons j := (configs j).button
  shared := ⟨false, fun pin => (List.finRange n).any fun j => (configs j).pinId = pin, []⟩
  phase := .idle

end Phy6212.ButtonSrv
