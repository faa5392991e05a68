import Mathlib.Algebra.GroupWithZero.Nat
import Phy6212.ButtonSrv.Service

/-!
# One event for each press

`Watch` follows the samples of one button in a run of the service and counts the events since the
last press began.
-/

namespace Phy6212.ButtonSrv

open Function

variable {n : Nat}

def EvtId.isPress : EvtId → Bool
  | .pressDown | .pressLongDown | .pressDouble => true
  | .pressUp | .evtEnd => false

def pressCount (calls : List (EvtId × Int)) : Nat := calls.countP fun call => call.1.isPress

/-- The last sample of the button was at its active level, and the number of press events since
the first sample of the last run of such samples. -/
structure Watch where
  held : Bool := false
  events : Nat := 0
  deriving DecidableEq, Repr

def Watch.sample (w : Watch) (active : Bool) : Watch :=
  ⟨active, if active ∧ w.held = false then 0 else w.events⟩

def Watch.note (j : Fin n) (s s' : Service n) (w : Watch) : Action n → Watch
  | .work _ _ =>
    match s.phase with
    | .handle i _ level =>
      if i = j then w.sample (level = (s.buttons j).param.activeLevel) else w
    | .call i _ =>
      if i = j then
        { w with events := w.events + (pressCount s'.shared.calls - pressCount s.shared.calls) }
      else w
    | _ => w
  | _ => w

def watchedStep (j : Fin n) (t : Service n × Watch) (a : Action n) :
    Except Refused (Service n × Watch) :=
  (t.1.step a).map fun s' => (s', t.2.note j t.1 s' a)

/-- A button that is not active at `HIGH_LEVEL` and whose user does not ask for second presses. -/
structure Plain (b : Button) : Prop where
  low : b.param.activeLevel ≠ highLevel
  single : b.evtFlag.testBit EvtId.pressDouble.bit = false
  once : b.repeated = false

/-- The events that the state of a button leaves room for. -/
def Stage (w : Watch) : State → Prop
  | .none => w.held = false ∧ w.events ≤ 1
  | .start | .cnt => w.events = 0
  | .high => w.events ≤ 1
  | .ended => False

structure Quiet (b : Button) (w : Watch) : Prop where
  plain : Plain b
  silent : b.active = false
  stage : Stage w b.state

/-- A button between its handler and the call of the user: it waits, it was pressed, or it was
released. -/
structure Handled (b : Button) (w : Watch) : Prop where
  plain : Plain b
  outcome : (b.active = false ∧ Stage w b.state) ∨
    (b.active = true ∧ b.state = .high ∧ w.events = 0) ∨
    (b.active = true ∧ b.state = .ended ∧ w.held = false ∧ w.events ≤ 1 ∧ b.evtId.isPress = false)

variable {b : Button} {w : Watch} {g : Shared}

theorem Plain.updateRepeat (plain : Plain b) (now : Int) : updateRepeat b now = b := by
  simp [ButtonSrv.updateRepeat, plain.single]

theorem Stage.le {state : State} (stage : Stage w state) : w.events ≤ 1 := by
  cases state with
  | none => exact stage.2
  | start | cnt => exact (Nat.le_of_eq stage).trans (Nat.zero_le 1)
  | high => exact stage
  | ended => exact stage.elim

theorem Handled.le (handled : Handled b w) : w.events ≤ 1 := by
  rcases handled.outcome with ⟨-, stage⟩ | ⟨-, -, zero⟩ | ⟨-, -, -, few, -⟩
  · exact stage.le
  · omega
  · exact few

theorem sample_le (few : w.events ≤ 1) (active : Bool) : (w.sample active).events ≤ 1 := by
  unfold Watch.sample
  split
  · exact Nat.zero_le 1
  · exact few

theorem sample_zero (zero : w.events = 0) (active : Bool) : (w.sample active).events = 0 := by
  simp [Watch.sample, zero]

theorem Quiet.stateHdl (quiet : Quiet b w) (level now : Int) :
    Handled (stateHdl b level now g).1 (w.sample (level = b.param.activeLevel)) := by
  obtain ⟨plain, silent, stage⟩ := quiet
  obtain ⟨low, single, once⟩ := plain
  have few := stage.le
  unfold ButtonSrv.stateHdl
  cases state : b.state with
  | none =>
    rw [state] at stage
    simp only [noneHdl]
    split
    next active =>
      exact ⟨⟨low, single, once⟩, .inl ⟨silent, by simp [Stage, Watch.sample, stage.1, active]⟩⟩
    rename_i inactive
    refine ⟨⟨low, single, once⟩, .inl ⟨silent, ?_⟩⟩
    rw [state]
    exact ⟨decide_eq_false inactive, sample_le few _⟩
  | start =>
    rw [state] at stage
    simp only [startHdl]
    split
    · split
      · exact ⟨⟨low, single, once⟩, .inl ⟨silent, sample_zero stage _⟩⟩
      · exact ⟨⟨low, single, once⟩, .inl ⟨silent, state ▸ sample_zero stage _⟩⟩
    next inactive =>
      exact ⟨⟨low, single, once⟩, .inl ⟨rfl, decide_eq_false inactive, sample_le few _⟩⟩
  | cnt =>
    rw [state] at stage
    simp only [cntHdl]
    split
    · split
      · exact ⟨⟨low, single, once⟩, .inr (.inl ⟨rfl, rfl, sample_zero stage _⟩)⟩
      · exact ⟨⟨low, single, once⟩, .inl ⟨silent, state ▸ sample_zero stage _⟩⟩
    · exact ⟨⟨low, single, once⟩, .inr (.inl ⟨rfl, rfl, sample_zero stage _⟩)⟩
  | high =>
    simp only [highHdl]
    split
    next released =>
      have inactive : level ≠ b.param.activeLevel := released ▸ low.symm
      refine ⟨⟨low, single, once⟩, .inr (.inr ⟨rfl, rfl, decide_eq_false inactive,
        sample_le few _, ?_⟩)⟩
      show (if b.evtId = .pressLongDown then EvtId.evtEnd else .pressUp).isPress = false
      split <;> rfl
    · exact ⟨⟨low, single, once⟩, .inl ⟨silent, state ▸ sample_le few _⟩⟩
  | ended =>
    rw [state] at stage
    exact stage.elim

theorem pressCount_buttonEvt (g : Shared) (b : Button) :
    pressCount (g.buttonEvt b).calls - pressCount g.calls ≤ if b.evtId.isPress then 1 else 0 := by
  unfold Shared.buttonEvt pressCount
  split
  · simp [List.countP_append, List.countP_cons]
  · simp

theorem Handled.eventCall (handled : Handled b w) :
    Quiet (eventCall b g).1 { w with
      events := w.events + (pressCount (eventCall b g).2.calls - pressCount g.calls) } := by
  obtain ⟨⟨low, single, once⟩, outcome⟩ := handled
  have added := pressCount_buttonEvt g b
  unfold ButtonSrv.eventCall
  rcases outcome with ⟨silent, stage⟩ | ⟨active, state, zero⟩ | ⟨active, state, held, few, other⟩
  · simp only [silent, Bool.false_eq_true, if_false, Nat.sub_self, Nat.add_zero]
    exact ⟨⟨low, single, once⟩, silent, stage⟩
  · simp only [active, if_true, once, state, reduceCtorEq, if_false]
    refine ⟨⟨low, single, rfl⟩, rfl, ?_⟩
    show _ ≤ 1
    split at added <;> simp only <;> omega
  simp only [active, if_true, once, state]
  rw [other, if_neg Bool.false_ne_true] at added
  refine ⟨⟨low, single, rfl⟩, rfl, held, ?_⟩
  simp only at added ⊢
  omega

def Phase.calls : Phase n → Option (Fin n)
  | .call i _ => some i
  | _ => none

def Orderly (j : Fin n) (t : Service n × Watch) : Prop :=
  if t.1.phase.calls = some j then Handled (t.1.buttons j) t.2 else Quiet (t.1.buttons j) t.2

variable {j : Fin n} {s s' : Service n}

theorem Orderly.le {t : Service n × Watch} (orderly : Orderly j t) : t.2.events ≤ 1 := by
  unfold Orderly at orderly
  split at orderly
  · exact orderly.le
  · exact orderly.stage.le

theorem Orderly.interrupt (orderly : Orderly j (s, w)) (pin now : Int) :
    Orderly j (s.pinEvent pin now, w) := by
  unfold Service.pinEvent
  cases s.buttonFind pin with
  | none => exact orderly
  | some k =>
    by_cases same : k = j
    · -- the mark and the time of the press are all that changes
      subst same
      have buttons : (s.buttonIrq k now).buttons k =
          { s.buttons k with irqFlag := true, stMs := now } := by
        simp [Service.buttonIrq, Service.put]
      have phase : (s.buttonIrq k now).phase = s.phase := rfl
      unfold Orderly at orderly ⊢
      simp only [buttons, phase]
      split at orderly
      next called =>
        rw [if_pos called]
        exact ⟨⟨orderly.plain.low, orderly.plain.single, orderly.plain.once⟩, orderly.outcome⟩
      rename_i other
      rw [if_neg other]
      exact ⟨⟨orderly.plain.low, orderly.plain.single, orderly.plain.once⟩, orderly.silent,
        orderly.stage⟩
    · have buttons : (s.buttonIrq k now).buttons j = s.buttons j := by
        simp [Service.buttonIrq, Service.put, Ne.symm same]
      unfold Orderly at orderly ⊢
      rw [buttons]
      exact orderly

theorem Orderly.work (orderly : Orderly j (s, w)) {now : Int} {high : Bool}
    (ok : s.work now high = .ok s') : Orderly j (s', w.note j s s' (.work now high)) := by
  unfold Service.work at ok
  unfold Orderly at orderly
  unfold Watch.note
  cases phase : s.phase with
  | idle => simp [phase] at ok
  | examine i cnt =>
    simp only [phase, Phase.calls, reduceCtorEq, if_false] at ok orderly
    split at ok
    · split at ok
      · cases ok
        exact orderly
      · cases ok
        exact orderly
    · cases ok
      exact orderly
  | sample i cnt =>
    simp only [phase, Phase.calls, reduceCtorEq, if_false, Except.ok.injEq] at ok orderly
    subst ok
    show Quiet (update s.buttons i _ j) w
    by_cases same : i = j
    · subst same
      rwa [update_self, orderly.plain.updateRepeat]
    · rwa [update_of_ne (Ne.symm same)]
  | stop i cnt level =>
    simp only [phase, Phase.calls, reduceCtorEq, if_false, Except.ok.injEq] at ok orderly
    subst ok
    exact orderly
  | handle i cnt level =>
    simp only [phase, Phase.calls, reduceCtorEq, if_false, Except.ok.injEq] at ok orderly
    subst ok
    unfold Orderly
    simp only [Service.put, Phase.calls, Option.some.injEq]
    by_cases same : i = j
    · subst same
      simp only [if_true, update_self]
      exact orderly.stateHdl level now
    · simp only [if_neg same, update_of_ne (Ne.symm same)]
      exact orderly
  | call i cnt =>
    simp only [phase, Phase.calls, Option.some.injEq, Except.ok.injEq] at ok orderly
    subst ok
    show Quiet (update s.buttons i _ j) _
    by_cases same : i = j
    · subst same
      rw [if_pos rfl] at orderly
      simp only [if_true, update_self]
      exact orderly.eventCall
    · rw [if_neg same] at orderly
      simp only [if_neg same, update_of_ne (Ne.symm same)]
      exact orderly
  | clear i cnt =>
    simp only [phase, Phase.calls, reduceCtorEq, if_false, Except.ok.injEq] at ok orderly
    subst ok
    show Quiet (update s.buttons i _ j) w
    by_cases same : i = j
    · subst same
      rw [update_self]
      exact ⟨⟨orderly.plain.low, orderly.plain.single, orderly.plain.once⟩, orderly.silent,
        orderly.stage⟩
    · rwa [update_of_ne (Ne.symm same)]

theorem Orderly.step {t t' : Service n × Watch} {a : Action n} (orderly : Orderly j t)
    (ok : watchedStep j t a = .ok t') : Orderly j t' := by
  obtain ⟨s, w⟩ := t
  unfold watchedStep at ok
  cases result : s.step a with
  | error e => simp [result, Except.map] at ok
  | ok s' =>
    simp only [result, Except.map, Except.ok.injEq] at ok
    subst ok
    cases a with
    | interrupt k now =>
      simp only [Service.step] at result
      split at result
      · cases result
        exact orderly.interrupt _ now
      · cases result
    | expire =>
      simp only [Service.step] at result
      split at result
      next idle =>
        cases result
        simp only [Orderly, idle.2, Phase.calls, reduceCtorEq, if_false] at orderly
        exact orderly
      · cases result
    | work now high => exact orderly.work result

theorem press_reported_once (configs : Fin n → Config) (j : Fin n)
    (low : (configs j).param.activeLevel ≠ highLevel)
    (single : (configs j).evtFlag.testBit EvtId.pressDouble.bit = false)
    (actions : List (Action n)) (t : Service n × Watch)
    (ran : actions.foldlM (watchedStep j) (Service.init configs, {}) = .ok t) :
    t.2.events ≤ 1 := by
  have reached : Runs.Reaches _ _ _ t :=
    Runs.reaches_foldlM (fun _ _ _ => trivial) ran
  have start : Orderly j (Service.init configs, {}) :=
    ⟨⟨low, single, rfl⟩, rfl, rfl, Nat.zero_le 1⟩
  exact (reached.invariant start fun _ _ _ orderly _ ok => orderly.step ok).le

scoped instance neZero_one : NeZero 1 := Nat.instNeZeroSucc

def callback (now : Int) (high : Bool) : List (Action 1) :=
  .expire :: List.replicate 7 (.work now high)

def quickButton (activeLevel : Int) (evtFlag : Nat) : Config :=
  ⟨1, evtFlag, { buttonParamInit with stTmout := 10, ldTmout := 20, activeLevel }⟩

def longPress : List (Action 1) :=
  .interrupt 0 0 :: callback 5 false ++ callback 15 false ++ callback 25 false ++ callback 35 true

theorem press_reported_once_long :
    ∃ t, longPress.foldlM (watchedStep 0) (Service.init fun _ => quickButton lowLevel 7, {}) =
      .ok t ∧ t.2.events ≤ 1 :=
  ⟨_, rfl, press_reported_once (fun _ => quickButton lowLevel 7) 0 (by decide) (by decide) longPress
    _ rfl⟩

def reports (config : Config) (actions : List (Action 1)) : Option (List (EvtId × Int) × Nat) :=
  (actions.foldlM (watchedStep 0) (Service.init fun _ => config, {})).toOption.map fun t =>
    (t.1.shared.calls, t.2.events)

/-- **A press is reported twice**: a button that is active at `HIGH_LEVEL` and is held while its
pin interrupts once more reports `PRESS_LONG_DOWN` twice; and a short press followed by a long
one reports `PRESS_DOUBLE` twice for the second. -/
theorem press_reported_twice :
    reports (quickButton highLevel 7) (.interrupt 0 0 :: callback 5 true ++ callback 15 true ++
        callback 25 true ++ callback 35 true ++ .interrupt 0 100 :: callback 105 true ++
        callback 115 true ++ callback 125 true) =
      some ([(.pressLongDown, 1), (.pressLongDown, 1)], 2) ∧
    reports (quickButton lowLevel 15) (.interrupt 0 0 :: callback 5 false ++ callback 15 false ++
        callback 20 true ++ callback 25 true ++ .interrupt 0 30 :: callback 35 false ++
        callback 45 false ++ callback 55 false ++ callback 65 false) =
      some ([(.pressDown, 1), (.pressUp, 1), (.pressDouble, 1), (.pressDouble, 1)], 2) := by
  constructor <;> decide +kernel

end Phy6212.ButtonSrv
