import Mathlib.Algebra.GroupWithZero.Nat
import Mathlib.Data.Fintype.Basic
import Phy6212.ButtonSrv.Service

/-!
# The timer of the buttons is armed

A busy button needs the timer, which all buttons share and which handling a button stops.
-/

namespace Phy6212.ButtonSrv

open List

variable {n : Nat}

def Service.Serviced (s : Service n) : Prop :=
  (∃ j, (s.buttons j).Busy) → s.shared.armed = true

def Service.Watched (s : Service n) : Prop :=
  ∀ j, s.shared.enabled (s.pin j) = false → ∃ k, s.pin k = s.pin j ∧ (s.buttons k).Busy

/-- The button whose handler has run and whose mark is still there. -/
def Phase.served : Phase n → Option (Fin n)
  | .call i _ | .clear i _ => some i
  | _ => none

/-- The condition on a step. A handler that leaves the timer stopped runs only when no button
before its own is busy, or when one behind it is and will be handled in the same callback. A
pin does not interrupt between the handler of its button and the removal of the mark. -/
def Keeps (s : Service n) : Action n → Prop
  | .interrupt j _ => ∀ i, s.phase.served = some i → s.pin i ≠ s.pin j
  | .expire => True
  | .work _ _ =>
    match s.phase with
    | .handle i _ level =>
      (s.buttons i).restarts level = true ∨ (∀ j < i, ¬ (s.buttons j).Busy) ∨
        ∃ j, i < j ∧ (s.buttons j).Busy
    | _ => True

instance : ∀ (s : Service n) (a : Action n), Decidable (Keeps s a)
  | s, .interrupt j _ => inferInstanceAs (Decidable (∀ i, s.phase.served = some i → s.pin i ≠ s.pin j))
  | _, .expire => .isTrue trivial
  | ⟨buttons, _, .handle i _ level⟩, .work _ _ =>
    inferInstanceAs (Decidable ((buttons i).restarts level = true ∨
      (∀ j < i, ¬ (buttons j).Busy) ∨ ∃ j, i < j ∧ (buttons j).Busy))
  | ⟨_, _, .idle⟩, .work _ _ => .isTrue trivial
  | ⟨_, _, .examine _ _⟩, .work _ _ => .isTrue trivial
  | ⟨_, _, .sample _ _⟩, .work _ _ => .isTrue trivial
  | ⟨_, _, .stop _ _ _⟩, .work _ _ => .isTrue trivial
  | ⟨_, _, .call _ _⟩, .work _ _ => .isTrue trivial
  | ⟨_, _, .clear _ _⟩, .work _ _ => .isTrue trivial

/-! ## What the handlers do -/

variable {b : Button} {g : Shared} {level now : Int}

theorem stateHdl_restarts (again : b.restarts level = true) :
    ∃ b', stateHdl b level now g = (b', g.timerStart) ∧ b'.Pressed ∧ b'.pinId = b.pinId := by
  unfold Button.restarts at again
  unfold stateHdl Button.Pressed
  cases state : b.state with
  | none =>
    simp only [state, decide_eq_true_eq] at again
    refine ⟨_, if_pos again, ⟨?_, ?_⟩, rfl⟩ <;> simp
  | start =>
    simp only [state, decide_eq_true_eq] at again
    refine ⟨_, if_pos again, ?_⟩
    split <;> simp [state]
  | cnt =>
    simp only [cntHdl]
    split
    · refine ⟨_, rfl, ?_⟩
      split <;> simp [state]
    · exact ⟨_, rfl, by simp⟩
  | high =>
    simp only [state, ne_eq, decide_not, Bool.not_eq_true', decide_eq_false_iff_not] at again
    exact ⟨_, if_neg again, by simp [state]⟩
  | ended => simp [state] at again

theorem stateHdl_releases (alive : b.state ≠ .ended) (not : b.restarts level = false) :
    ∃ b', stateHdl b level now g = (b', g.irqEnable b.pinId) ∧ ¬ b'.Pressed ∧
      b'.pinId = b.pinId ∧ (b'.state = .ended → b'.active = true) := by
  unfold Button.restarts at not
  unfold stateHdl Button.Pressed
  cases state : b.state with
  | none =>
    simp only [state, decide_eq_false_iff_not] at not
    exact ⟨_, if_neg not, by simp [state]⟩
  | start =>
    simp only [state, decide_eq_false_iff_not] at not
    exact ⟨_, if_neg not, by simp [reset]⟩
  | cnt => simp [state] at not
  | high =>
    simp only [state, ne_eq, decide_not, Bool.not_eq_false', decide_eq_true_eq] at not
    exact ⟨_, if_pos not, by simp⟩
  | ended => exact absurd state alive

theorem buttonEvt_armed : (g.buttonEvt b).armed = g.armed := by
  unfold Shared.buttonEvt
  split <;> rfl

theorem buttonEvt_enabled : (g.buttonEvt b).enabled = g.enabled := by
  unfold Shared.buttonEvt
  split <;> rfl

theorem eventCall_spec (active : b.state = .ended → b.active = true) :
    (eventCall b g).1.state = (if b.state = .ended then .none else b.state) ∧
      (eventCall b g).1.pinId = b.pinId ∧ (eventCall b g).2.armed = g.armed ∧
      (eventCall b g).2.enabled = g.enabled := by
  unfold eventCall
  by_cases ended : b.state = .ended
  · rw [if_pos (active ended)]
    split
    · simp [reset, buttonEvt_armed, buttonEvt_enabled]
    · split <;> simp [ended, reset, buttonEvt_armed, buttonEvt_enabled]
  split
  · split
    · simp [buttonEvt_armed, buttonEvt_enabled]
    · split <;> simp [buttonEvt_armed, buttonEvt_enabled]
  · simp

theorem updateRepeat_spec (b : Button) (now : Int) : (updateRepeat b now).state = b.state ∧
    (updateRepeat b now).irqFlag = b.irqFlag ∧ (updateRepeat b now).pinId = b.pinId := by
  unfold updateRepeat
  split <;> exact ⟨rfl, rfl, rfl⟩

/-! ## The invariant -/

def Service.Live (s : Service n) (j : Fin n) : Prop :=
  if s.phase.served = some j then (s.buttons j).Pressed else (s.buttons j).Busy

theorem Service.Live.busy {s : Service n} {j : Fin n} (live : s.Live j) : (s.buttons j).Busy := by
  unfold Service.Live at live
  split at live
  · exact .inr live.1
  · exact live

/-- The interrupts that are disabled are those of the live buttons, a live button is the first
one with its pin, the timer runs for a live button only, and a press is over only until the
user is called. -/
structure Lines (s : Service n) : Prop where
  masked : ∀ j, s.Live j → s.shared.enabled (s.pin j) = false
  first : ∀ j, s.Live j → s.buttonFind (s.pin j) = some j
  watched : ∀ j, s.shared.enabled (s.pin j) = false → ∃ k, s.pin k = s.pin j ∧ s.Live k
  rings : s.shared.armed = true → ∃ j, s.Live j
  ended : ∀ j, (s.buttons j).state = .ended →
    (∃ cnt, s.phase = .call j cnt) ∧ (s.buttons j).active = true

/-- What holds at each place of the callback: outside and behind a handler, the timer runs or
no live button has been passed, or one is still ahead. -/
def Service.Pass (s : Service n) : Prop :=
  match s.phase with
  | .idle => s.shared.armed = true ∨ ∀ j, ¬ s.Live j
  | .examine i cnt =>
    (s.shared.armed = true ∨ (∀ j : Fin n, j.val < i → ¬ s.Live j) ∨
      ∃ j : Fin n, i ≤ j.val ∧ s.Live j) ∧
    (cnt = 0 → ∃ j : Fin n, i ≤ j.val ∧ s.Live j)
  | .sample i _ | .stop i _ _ => s.Live i
  | .handle i _ _ => s.Live i ∧ (s.shared.armed = true → ∃ j, j ≠ i ∧ s.Live j)
  | .call i _ | .clear i _ =>
    s.shared.armed = true ∨ (∀ j ≤ i, ¬ s.Live j) ∨ ∃ j, i < j ∧ s.Live j

variable {s s' : Service n}

theorem buttonFind_congr (pins : s'.pin = s.pin) : s'.buttonFind = s.buttonFind := by
  funext pin
  unfold Service.buttonFind
  rw [pins]

theorem pin_of_buttonFind {pin : Int} {k : Fin n} (found : s.buttonFind pin = some k) :
    s.pin k = pin := by
  simpa using find?_some found

theorem buttonFind_pin (s : Service n) (j : Fin n) : ∃ k, s.buttonFind (s.pin j) = some k := by
  have some_found : (s.buttonFind (s.pin j)).isSome := by
    unfold Service.buttonFind
    rw [find?_isSome]
    exact ⟨j, mem_finRange j, by simp⟩
  exact Option.isSome_iff_exists.mp some_found

variable {i j : Fin n} {phase : Phase n}

@[simp] theorem put_self : (s.put i b g phase).buttons i = b := by
  simp [Service.put]

theorem put_ne (other : j ≠ i) : (s.put i b g phase).buttons j = s.buttons j := by
  simp [Service.put, other]

theorem pin_put (same : b.pinId = s.pin i) : (s.put i b g phase).pin = s.pin := by
  funext j
  by_cases here : j = i
  · subst here
    rw [Service.pin, put_self]
    exact same
  · rw [Service.pin, put_ne here]
    rfl

theorem live_congr (served : s'.phase.served = some j ↔ s.phase.served = some j)
    (button : s'.buttons j = s.buttons j) : s'.Live j ↔ s.Live j := by
  unfold Service.Live
  rw [button]
  simp only [served]

theorem Lines.congr (lines : Lines s) (pins : s'.pin = s.pin)
    (enabled : s'.shared.enabled = s.shared.enabled) (live : ∀ j, s'.Live j ↔ s.Live j)
    (armed : s'.shared.armed = true → s.shared.armed = true ∨ ∃ j, s.Live j)
    (ended : ∀ j, (s'.buttons j).state = .ended →
      (∃ cnt, s'.phase = .call j cnt) ∧ (s'.buttons j).active = true) : Lines s' where
  masked j here := by
    rw [enabled, pins]
    exact lines.masked j ((live j).mp here)
  first j here := by
    rw [buttonFind_congr pins, pins]
    exact lines.first j ((live j).mp here)
  watched j disabled := by
    rw [enabled, pins] at disabled
    obtain ⟨k, same, here⟩ := lines.watched j disabled
    exact ⟨k, by rw [pins]; exact same, (live k).mpr here⟩
  rings running := by
    obtain ⟨j, here⟩ := (armed running).elim lines.rings id
    exact ⟨j, (live j).mpr here⟩
  ended := ended

/-! ## Interrupts -/

variable {k : Fin n}

theorem pin_buttonIrq : (s.buttonIrq k now).pin = s.pin :=
  pin_put rfl

theorem live_buttonIrq (unserved : s.phase.served ≠ some k) (i : Fin n) :
    (s.buttonIrq k now).Live i ↔ i = k ∨ s.Live i := by
  by_cases here : i = k
  · subst here
    have marked : (s.buttonIrq i now).Live i := by
      have phase : (s.buttonIrq i now).phase = s.phase := rfl
      rw [Service.Live, phase, if_neg unserved, Service.buttonIrq, put_self]
      exact .inl rfl
    simp [marked]
  · have same : (s.buttonIrq k now).Live i ↔ s.Live i := live_congr Iff.rfl (put_ne here)
    simp [same, here]

theorem Lines.buttonIrq (lines : Lines s) (found : s.buttonFind (s.pin k) = some k)
    (unserved : s.phase.served ≠ some k) : Lines (s.buttonIrq k now) where
  masked i here := by
    rw [pin_buttonIrq]
    by_cases same : s.pin i = s.pin k
    · rw [same]
      exact Shared.irqDisable_self
    · have other : i ≠ k := fun equal => same (by rw [equal])
      have before := ((live_buttonIrq unserved i).mp here).resolve_left other
      exact (Shared.irqDisable_ne same).trans (lines.masked i before)
  first i here := by
    rw [buttonFind_congr pin_buttonIrq, pin_buttonIrq]
    rcases (live_buttonIrq unserved i).mp here with rfl | before
    · exact found
    · exact lines.first i before
  watched i disabled := by
    rw [pin_buttonIrq] at disabled ⊢
    by_cases same : s.pin i = s.pin k
    · exact ⟨k, same.symm, (live_buttonIrq unserved k).mpr (.inl rfl)⟩
    · have before := (Shared.irqDisable_ne same).symm.trans disabled
      obtain ⟨k', pins, live⟩ := lines.watched i before
      exact ⟨k', pins, (live_buttonIrq unserved k').mpr (.inr live)⟩
  rings _ := ⟨k, (live_buttonIrq unserved k).mpr (.inl rfl)⟩
  ended i ended := by
    by_cases here : i = k
    · subst here
      rw [Service.buttonIrq, put_self] at ended ⊢
      exact lines.ended i ended
    · rw [Service.buttonIrq, put_ne here] at ended ⊢
      exact lines.ended i ended

theorem pass_buttonIrq (lines : Lines s) (pass : s.Pass)
    (enabled : s.shared.enabled (s.pin k) = true) (unserved : s.phase.served ≠ some k) :
    (s.buttonIrq k now).Pass := by
  have more : ∀ i, s.Live i → (s.buttonIrq k now).Live i :=
    fun i here => (live_buttonIrq unserved i).mpr (.inr here)
  have phase : (s.buttonIrq k now).phase = s.phase := rfl
  have armed : (s.buttonIrq k now).shared.armed = true := rfl
  unfold Service.Pass at pass ⊢
  rw [phase]
  cases place : s.phase with
  | idle => exact .inl armed
  | examine i cnt =>
    simp only [place] at pass
    refine ⟨.inl armed, fun none => ?_⟩
    obtain ⟨j, ahead, live⟩ := pass.2 none
    exact ⟨j, ahead, more j live⟩
  | sample i cnt =>
    simp only [place] at pass
    exact more i pass
  | stop i cnt level =>
    simp only [place] at pass
    exact more i pass
  | handle i cnt level =>
    simp only [place] at pass
    have other : k ≠ i := by
      rintro rfl
      rw [lines.masked k pass.1] at enabled
      cases enabled
    exact ⟨more i pass.1, fun _ => ⟨k, other, (live_buttonIrq unserved k).mpr (.inl rfl)⟩⟩
  | call i cnt => exact .inl armed
  | clear i cnt => exact .inl armed

/-! ## The callback -/

variable {cnt : Nat}

theorem live_of_unserved (place : s.phase.served = none) : s.Live j ↔ (s.buttons j).Busy := by
  rw [Service.Live, place, if_neg (by simp)]

theorem live_of_served (place : s.phase.served = some i) : s.Live i ↔ (s.buttons i).Pressed := by
  rw [Service.Live, if_pos place]

theorem live_put_ne (other : j ≠ i) (before : s.phase.served = none ∨ s.phase.served = some i)
    (after : phase.served = none ∨ phase.served = some i) :
    (s.put i b g phase).Live j ↔ s.Live j := by
  have apart : some i ≠ some j := fun same => other (Option.some.inj same).symm
  refine live_congr ?_ (put_ne other)
  have place : (s.put i b g phase).phase = phase := rfl
  rw [place]
  rcases before with before | before <;> rcases after with after | after <;>
    simp [before, after, apart]

theorem Lines.not_ended (lines : Lines s) (place : ∀ cnt, s.phase ≠ .call j cnt) :
    (s.buttons j).state ≠ .ended := by
  intro ended
  obtain ⟨⟨cnt, called⟩, -⟩ := lines.ended j ended
  exact place cnt called

theorem Lines.restarted (lines : Lines s) (place : s.phase = .handle i cnt level)
    (live : s.Live i) (pressed : b.Pressed) (pin : b.pinId = s.pin i) :
    Lines (s.put i b s.shared.timerStart (.call i cnt)) := by
  have unserved : s.phase.served = none := by rw [place]; rfl
  refine lines.congr (pin_put pin) rfl (fun j => ?_) (fun _ => .inr ⟨i, live⟩) (fun j ended => ?_)
  · by_cases here : j = i
    · subst here
      rw [live_of_served rfl, put_self]
      exact iff_of_true pressed live
    · exact live_put_ne here (.inl unserved) (.inr rfl)
  by_cases here : j = i
  · subst here
    rw [put_self] at ended
    exact absurd ended pressed.2
  · rw [put_ne here] at ended
    exact absurd ended (lines.not_ended fun cnt called => by rw [place] at called; cases called)

theorem Lines.released (lines : Lines s) (place : s.phase = .handle i cnt level)
    (live : s.Live i) (others : s.shared.armed = true → ∃ j, j ≠ i ∧ s.Live j)
    (unpressed : ¬ b.Pressed) (pin : b.pinId = s.pin i) (active : b.state = .ended → b.active = true) :
    Lines (s.put i b (s.shared.irqEnable (s.pin i)) (.call i cnt)) := by
  have unserved : s.phase.served = none := by rw [place]; rfl
  have pins : (s.put i b (s.shared.irqEnable (s.pin i)) (.call i cnt)).pin = s.pin := pin_put pin
  have rest : ∀ j, (s.put i b (s.shared.irqEnable (s.pin i)) (.call i cnt)).Live j ↔
      j ≠ i ∧ s.Live j := by
    intro j
    by_cases here : j = i
    · subst here
      rw [live_of_served rfl, put_self]
      exact iff_of_false unpressed fun both => both.1 rfl
    · rw [live_put_ne here (.inl unserved) (.inr rfl)]
      simp [here]
  -- two live buttons have different pins
  have apart : ∀ j, j ≠ i → s.Live j → s.pin j ≠ s.pin i := by
    intro j other here same
    have found := lines.first j here
    rw [same, lines.first i live] at found
    exact other (Option.some.inj found).symm
  constructor
  · intro j here
    obtain ⟨other, before⟩ := (rest j).mp here
    rw [pins]
    exact (Shared.irqEnable_ne (apart j other before)).trans (lines.masked j before)
  · intro j here
    rw [buttonFind_congr pins, pins]
    exact lines.first j ((rest j).mp here).2
  · intro j disabled
    rw [pins] at disabled ⊢
    have different : s.pin j ≠ s.pin i := by
      intro same
      rw [same] at disabled
      exact absurd (Shared.irqEnable_self.symm.trans disabled) (by decide)
    have before := (Shared.irqEnable_ne different).symm.trans disabled
    obtain ⟨k, same, here⟩ := lines.watched j before
    refine ⟨k, same, (rest k).mpr ⟨?_, here⟩⟩
    rintro rfl
    exact different same.symm
  · intro running
    obtain ⟨j, other, here⟩ := others running
    exact ⟨j, (rest j).mpr ⟨other, here⟩⟩
  · intro j ended
    by_cases here : j = i
    · subst here
      rw [put_self] at ended ⊢
      exact ⟨⟨cnt, rfl⟩, active ended⟩
    · rw [put_ne here] at ended
      exact absurd ended (lines.not_ended fun cnt called => by rw [place] at called; cases called)

theorem Lines.moved (lines : Lines s) (before : s.phase.served = none) (after : phase.served = none)
    (enabled : g.enabled = s.shared.enabled) (armed : g.armed = true → s.shared.armed = true) :
    Lines ⟨s.buttons, g, phase⟩ := by
  refine lines.congr rfl enabled (fun j => live_congr ?_ rfl) (fun running => .inl (armed running))
    (fun j ended => ?_)
  · simp only [before, after]
  · obtain ⟨⟨cnt, called⟩, -⟩ := lines.ended j ended
    rw [called] at before
    cases before

variable {high : Bool}

section

variable (lines : Lines s)

include lines

section

variable (pass : s.Pass)

include pass

theorem held_examine {i : Nat} (place : s.phase = .examine i cnt)
    (ok : s.work now high = .ok s') : Lines s' ∧ s'.Pass := by
  have unserved : s.phase.served = none := by rw [place]; rfl
  have live : ∀ {phase : Phase n} {g : Shared} (j : Fin n), phase.served = none →
      (Service.Live ⟨s.buttons, g, phase⟩ j ↔ s.Live j) := by
    intro phase g j after
    rw [live_of_unserved unserved, live_of_unserved after]
  simp only [Service.Pass, place] at pass
  obtain ⟨reason, ahead⟩ := pass
  simp only [Service.work, place] at ok
  by_cases inside : i < n
  · rw [dif_pos inside] at ok
    by_cases busy : (s.buttons ⟨i, inside⟩).Busy
    · rw [if_pos busy] at ok
      cases ok
      exact ⟨lines.moved unserved rfl rfl id, (live_of_unserved rfl).mpr busy⟩
    rw [if_neg busy] at ok
    cases ok
    have off : ¬ s.Live ⟨i, inside⟩ := fun here => busy here.busy
    have later : (∃ j : Fin n, i ≤ j.val ∧ s.Live j) →
        ∃ j : Fin n, i + 1 ≤ j.val ∧ Service.Live ⟨s.buttons, s.shared, .examine (i + 1) cnt⟩ j := by
      rintro ⟨j, after, here⟩
      refine ⟨j, Nat.lt_of_le_of_ne after ?_, (live j rfl).mpr here⟩
      rintro rfl
      exact off here
    refine ⟨lines.moved unserved rfl rfl id, ?_, fun none => later (ahead none)⟩
    rcases reason with running | passed | coming
    · exact .inl running
    · refine .inr (.inl fun j before here => ?_)
      rw [live j rfl] at here
      rcases Nat.lt_succ_iff_lt_or_eq.mp before with less | same
      · exact passed j less here
      · exact off (by rwa [show ⟨i, inside⟩ = j from Fin.ext same.symm])
    · exact .inr (.inr (later coming))
  · rw [dif_neg inside] at ok
    have nothing : ¬ ∃ j : Fin n, i ≤ j.val ∧ s.Live j := by
      rintro ⟨j, after, -⟩
      exact inside (Nat.lt_of_le_of_lt after j.isLt)
    have handled : cnt ≠ 0 := fun none => nothing (ahead none)
    rw [if_neg handled] at ok
    cases ok
    refine ⟨lines.moved unserved rfl rfl id, ?_⟩
    rcases reason with running | passed | coming
    · exact .inl running
    · refine .inr fun j here => passed j ?_ ((live j rfl).mp here)
      exact Nat.lt_of_lt_of_le j.isLt (Nat.not_lt.mp inside)
    · exact absurd coming nothing

theorem held_handle (keeps : Keeps s (.work now high))
    (place : s.phase = .handle i cnt level) (ok : s.work now high = .ok s') :
    Lines s' ∧ s'.Pass := by
  have unserved : s.phase.served = none := by rw [place]; rfl
  simp only [Service.Pass, place] at pass
  obtain ⟨live, others⟩ := pass
  have alive := lines.not_ended (j := i) fun cnt called => by rw [place] at called; cases called
  simp only [Service.work, place] at ok
  cases again : (s.buttons i).restarts level with
  | true =>
    obtain ⟨b, result, pressed, pin⟩ :
        ∃ b', stateHdl _ level now s.shared = (b', s.shared.timerStart) ∧ _ :=
      stateHdl_restarts again
    rw [result] at ok
    cases ok
    exact ⟨lines.restarted place live pressed pin, .inl rfl⟩
  | false =>
    obtain ⟨b, result, unpressed, pin, active⟩ : ∃ b', stateHdl _ level now s.shared =
          (b', s.shared.irqEnable (s.buttons i).pinId) ∧ _ :=
      stateHdl_releases alive again
    rw [result] at ok
    cases ok
    refine ⟨lines.released place live others unpressed pin active, .inr ?_⟩
    have same : ∀ j, j ≠ i → ((s.put i b (s.shared.irqEnable (s.pin i)) (.call i cnt)).Live j ↔
        (s.buttons j).Busy) := by
      intro j other
      rw [live_put_ne other (.inl unserved) (.inr rfl), live_of_unserved unserved]
    simp only [Keeps, place] at keeps
    rcases keeps with restarts | passed | ⟨j, behind, busy⟩
    · rw [again] at restarts
      cases restarts
    · refine .inl fun j before here => ?_
      rcases Fin.lt_or_eq_of_le before with less | rfl
      · exact passed j less ((same j (Fin.ne_of_lt less)).mp here)
      · rw [live_of_served rfl] at here
        simp only [put_self] at here
        exact unpressed here
    · exact .inr ⟨j, behind, (same j (Fin.ne_of_gt behind)).mpr busy⟩

theorem held_sample (place : s.phase = .sample i cnt)
    (ok : s.work now high = .ok s') : Lines s' ∧ s'.Pass := by
  have unserved : s.phase.served = none := by rw [place]; rfl
  obtain ⟨state, flag, pin⟩ := updateRepeat_spec (s.buttons i) now
  simp only [Service.Pass, place] at pass
  simp only [Service.work, place] at ok
  cases ok
  have live : ∀ j, (s.put i (updateRepeat (s.buttons i) now) s.shared
      (.stop i cnt (if high then highLevel else lowLevel))).Live j ↔ s.Live j := by
    intro j
    by_cases here : j = i
    · subst here
      rw [live_of_unserved rfl, live_of_unserved unserved, put_self, Button.Busy, state, flag]
      rfl
    · exact live_put_ne here (.inl unserved) (.inl rfl)
  refine ⟨lines.congr (pin_put pin) rfl live .inl (fun j ended => ?_), (live i).mpr pass⟩
  by_cases here : j = i
  · subst here
    rw [put_self, state] at ended
    exact absurd ended (lines.not_ended fun cnt called => by rw [place] at called; cases called)
  · rw [put_ne here] at ended
    exact absurd ended (lines.not_ended fun cnt called => by rw [place] at called; cases called)

theorem held_call (place : s.phase = .call i cnt)
    (ok : s.work now high = .ok s') : Lines s' ∧ s'.Pass := by
  have served : s.phase.served = some i := by rw [place]; rfl
  obtain ⟨state, pin, armed, enabled⟩ :=
    eventCall_spec (b := s.buttons i) (g := s.shared) fun ended => (lines.ended i ended).2
  simp only [Service.Pass, place] at pass
  simp only [Service.work, place] at ok
  cases ok
  have live : ∀ j, (s.put i (eventCall (s.buttons i) s.shared).1 (eventCall (s.buttons i) s.shared).2
      (.clear i cnt)).Live j ↔ s.Live j := by
    intro j
    by_cases here : j = i
    · subst here
      rw [live_of_served rfl, live_of_served served, put_self, Button.Pressed, state]
      by_cases ended : (s.buttons j).state = .ended
      · simp [Button.Pressed, ended]
      · simp [Button.Pressed, ended]
    · exact live_put_ne here (.inr served) (.inr rfl)
  refine ⟨lines.congr (pin_put pin) enabled live (fun running => .inl (armed.symm.trans running))
    (fun j ended => ?_), ?_⟩
  · by_cases here : j = i
    · subst here
      rw [put_self, state] at ended
      split at ended
      · cases ended
      · next alive => exact absurd ended alive
    rw [put_ne here] at ended
    obtain ⟨⟨cnt', called⟩, -⟩ := lines.ended j ended
    rw [place] at called
    cases called
    exact absurd rfl here
  rcases pass with running | passed | ⟨j, behind, here⟩
  · exact .inl (armed.trans running)
  · exact .inr (.inl fun j before here => passed j before ((live j).mp here))
  · exact .inr (.inr ⟨j, behind, (live j).mpr here⟩)

theorem held_clear (place : s.phase = .clear i cnt)
    (ok : s.work now high = .ok s') : Lines s' ∧ s'.Pass := by
  have served : s.phase.served = some i := by rw [place]; rfl
  have alive := lines.not_ended (j := i) fun cnt called => by rw [place] at called; cases called
  simp only [Service.Pass, place] at pass
  simp only [Service.work, place] at ok
  cases ok
  have live : ∀ j, (s.put i { s.buttons i with irqFlag := false } s.shared
      (.examine (i + 1) (cnt + 1))).Live j ↔ s.Live j := by
    intro j
    by_cases here : j = i
    · subst here
      rw [live_of_unserved rfl, live_of_served served, put_self]
      simp [Button.Busy, Button.Pressed, alive]
    · exact live_put_ne here (.inr served) (.inl rfl)
  refine ⟨lines.congr (pin_put rfl) rfl live .inl (fun j ended => ?_), ?_, fun none => ?_⟩
  · by_cases here : j = i
    · subst here
      rw [put_self] at ended
      exact absurd ended alive
    · rw [put_ne here] at ended
      exact absurd ended (lines.not_ended fun cnt called => by rw [place] at called; cases called)
  · rcases pass with running | passed | ⟨j, behind, here⟩
    · exact .inl running
    · exact .inr (.inl fun j before here => passed j (Nat.lt_succ_iff.mp before) ((live j).mp here))
    · exact .inr (.inr ⟨j, behind, (live j).mpr here⟩)
  · cases none

theorem held_work (keeps : Keeps s (.work now high))
    (ok : s.work now high = .ok s') : Lines s' ∧ s'.Pass := by
  cases place : s.phase with
  | idle => simp [Service.work, place] at ok
  | examine i cnt => exact held_examine lines pass place ok
  | sample i cnt => exact held_sample lines pass place ok
  | stop i cnt level =>
    have unserved : s.phase.served = none := by rw [place]; rfl
    simp only [Service.Pass, place] at pass
    simp only [Service.work, place] at ok
    cases ok
    refine ⟨lines.moved unserved rfl rfl nofun, ?_, nofun⟩
    exact (live_of_unserved rfl).mpr ((live_of_unserved unserved).mp pass)
  | handle i cnt level => exact held_handle lines pass keeps place ok
  | call i cnt => exact held_call lines pass place ok
  | clear i cnt => exact held_clear lines pass place ok

end

end

/-! ## Whole runs -/

theorem held_interrupt (lines : Lines s) (pass : s.Pass) (keeps : Keeps s (.interrupt j now))
    (ok : s.step (.interrupt j now) = .ok s') : (Lines s' ∧ s'.Pass) ∧ s'.shared.armed = true := by
  rw [Service.step] at ok
  split at ok
  · next enabled =>
    obtain ⟨k, found⟩ := buttonFind_pin s j
    have same := pin_of_buttonFind found
    rw [Service.pinEvent, found] at ok
    cases ok
    have unserved : s.phase.served ≠ some k := fun here => keeps k here same
    rw [← same] at found enabled
    exact ⟨⟨lines.buttonIrq found unserved, pass_buttonIrq lines pass enabled unserved⟩, rfl⟩
  · cases ok

def Service.Held (s : Service n) : Prop := Lines s ∧ s.Pass

theorem held_step {a : Action n} (held : s.Held) (keeps : Keeps s a) (ok : s.step a = .ok s') :
    s'.Held := by
  obtain ⟨lines, pass⟩ := held
  cases a with
  | interrupt j now => exact (held_interrupt lines pass keeps ok).1
  | work now high => exact held_work lines pass keeps ok
  | expire =>
    rw [Service.step] at ok
    split at ok
    · next due =>
      have unserved : s.phase.served = none := by rw [due.2]; rfl
      obtain ⟨j, here⟩ := lines.rings due.1
      cases ok
      have ahead : Service.Live ⟨s.buttons, s.shared.timerStop, .examine 0 0⟩ j :=
        (live_of_unserved rfl).mpr ((live_of_unserved unserved).mp here)
      exact ⟨lines.moved unserved rfl rfl nofun,
        .inr (.inr ⟨j, Nat.zero_le _, ahead⟩), fun _ => ⟨j, Nat.zero_le _, ahead⟩⟩
    · cases ok

theorem held_init (configs : Fin n → Config) : (Service.init configs).Held := by
  have quiet : ∀ j, ¬ (Service.init configs).Live j := by
    intro j
    rw [live_of_unserved rfl]
    simp [Service.init, Config.button, Button.Busy]
  refine ⟨⟨fun j here => absurd here (quiet j), fun j here => absurd here (quiet j), ?_, nofun,
    nofun⟩, .inr quiet⟩
  intro j disabled
  have enabled : (Service.init configs).shared.enabled ((Service.init configs).pin j) = true := by
    simp only [Service.init, Service.pin, any_eq_true]
    exact ⟨j, mem_finRange j, by simp [Config.button]⟩
  rw [enabled] at disabled
  cases disabled

theorem watched_of_lines (lines : Lines s) : s.Watched := by
  intro j disabled
  obtain ⟨k, same, here⟩ := lines.watched j disabled
  exact ⟨k, same, here.busy⟩

/-- **No busy button is left behind.** -/
theorem serviced_of_keeps (configs : Fin n → Config) (s : Service n)
    (run : Runs.Reaches Service.step Keeps (Service.init configs) s) :
    (s.phase = .idle → s.Serviced ∧ s.Watched) ∧
      ∀ j now s', Keeps s (.interrupt j now) → s.step (.interrupt j now) = .ok s' →
        s'.Serviced ∧ s'.Watched := by
  obtain ⟨lines, pass⟩ : s.Held :=
    run.invariant (held_init configs) fun _ _ _ held keeps ok => held_step held keeps ok
  constructor
  · intro idle
    refine ⟨?_, watched_of_lines lines⟩
    rintro ⟨j, busy⟩
    simp only [Service.Pass, idle] at pass
    refine pass.resolve_right fun quiet => quiet j ?_
    exact (live_of_unserved (by rw [idle]; rfl)).mpr busy
  · intro j now s' keeps ok
    obtain ⟨held, armed⟩ := held_interrupt lines pass keeps ok
    exact ⟨fun _ => armed, watched_of_lines held.1⟩

scoped instance neZero_two : NeZero 2 := Nat.instNeZeroSucc

def twoButtons : Fin 2 → Config
  | 0 => ⟨10, 15, buttonParamInit⟩
  | 1 => ⟨11, 15, buttonParamInit⟩

def firstHandled (now : Int) (high : Bool) : List (Action 2) :=
  .expire :: replicate 8 (.work now high)

/-- The first button is pressed: its interrupt, and one callback of the timer. -/
theorem serviced_of_keeps_press : ∃ s,
    Runs.Reaches Service.step Keeps (Service.init twoButtons) s ∧ s.phase = .idle ∧
      (s.buttons 0).state = .start ∧ s.Serviced ∧ s.Watched := by
  have run : Runs.Reaches Service.step Keeps (Service.init twoButtons) _ :=
    Runs.reaches_checked (show (.interrupt 0 5 :: firstHandled 25 false).foldlM _ _ = some _ from rfl)
  have idle := (serviced_of_keeps twoButtons _ run).1 rfl
  exact ⟨_, run, rfl, rfl, idle.1, idle.2⟩

def bounceBehindPress : List (Action 2) :=
  .interrupt 0 5 :: firstHandled 25 false ++ .interrupt 1 30 :: .expire ::
    replicate 6 (.work 45 false) ++ replicate 7 (.work 45 true)

def bounceTwice : List (Action 2) :=
  .interrupt 0 5 :: .expire :: replicate 4 (.work 25 true) ++ .interrupt 0 26 ::
    replicate 4 (.work 27 true) ++ .expire :: replicate 3 (.work 47 true)

theorem pressed_button_forgotten :
    (∃ s, Runs.Reaches Service.step (fun _ _ => True) (Service.init twoButtons) s ∧
      s.phase = .idle ∧ (s.buttons 0).state = .start ∧ s.shared.armed = false ∧
      s.shared.enabled (s.pin 0) = false ∧ ¬ s.Serviced) ∧
    ∃ s, Runs.Reaches Service.step (fun _ _ => True) (Service.init twoButtons) s ∧
      s.phase = .idle ∧ s.shared.armed = false ∧ s.shared.enabled (s.pin 0) = false ∧
      ¬ (s.buttons 0).Busy ∧ ¬ (s.buttons 1).Busy ∧ ¬ s.Watched := by
  constructor
  · have run : Runs.Reaches Service.step _ (Service.init twoButtons) _ :=
      Runs.reaches_foldlM (fun _ _ _ => trivial)
        (show bounceBehindPress.foldlM Service.step _ = Except.ok _ from rfl)
    refine ⟨_, run, rfl, rfl, rfl, rfl, fun serviced => ?_⟩
    cases serviced ⟨0, .inr (by decide)⟩
  have run : Runs.Reaches Service.step _ (Service.init twoButtons) _ :=
    Runs.reaches_foldlM (fun _ _ _ => trivial)
      (show bounceTwice.foldlM Service.step _ = Except.ok _ from rfl)
  refine ⟨_, run, rfl, rfl, rfl, by decide, by decide, fun watched => ?_⟩
  obtain ⟨k, -, busy⟩ := watched 0 rfl
  revert k
  decide

end Phy6212.ButtonSrv
