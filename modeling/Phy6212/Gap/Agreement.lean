import Phy6212.Gap.Bond

/-!
# The bond flag and the bond record

`is_bonded` is kept in `bond_info` and in the record in the store. `bond_info_save` and
`bond_info_remove` change the two one after the other, and each call in between may fail.
-/

namespace Phy6212.Gap

open Runs

def Ble.storedFlag (s : Ble) : Bool :=
  match s.stored with
  | none => false
  | some bytes => (BondInfo.ofBytes bytes).isBonded

def Ble.Agrees (s : Ble) : Prop := s.bondInfo.isBonded = s.storedFlag

instance (s : Ble) : Decidable s.Agrees := inferInstanceAs (Decidable (_ = _))

/-- A call of one of the two functions, with what the calls inside it return. -/
inductive BondUpdate where
  | save (answers : Answers) (remoteAddr : DevAddr)
  | remove (answers : Answers)

/-- The call: what it returns, and the device after it. -/
def BondUpdate.perform (s : Ble) : BondUpdate → Except Empty (Bool × Ble)
  | .save answers remoteAddr => .ok (bondInfoSave answers remoteAddr s)
  | .remove answers => .ok (bondInfoRemove answers s)

def Keeps (s : Ble) : BondUpdate → Prop
  | .save answers _ =>
    if answers.kvSet = 0 then answers.whiteListAdd = 0 else s.bondInfo.isBonded = false
  | .remove answers =>
    answers.devUnpair = 0 → answers.whiteListRemove = 0 → answers.kvSet ≠ 0 →
      s.bondInfo.isBonded = false

variable {s : Ble} {answers : Answers}

theorem isBonded_ofBytes_bytes (info : BondInfo) :
    (BondInfo.ofBytes info.bytes).isBonded = info.isBonded := by
  obtain ⟨isBonded, remoteAddr⟩ := info
  cases isBonded <;> rfl

@[simp] theorem isBonded_setBonded (flag : Bool) :
    (s.setBonded flag).bondInfo.isBonded = flag := rfl

@[simp] theorem storedFlag_setBonded (flag : Bool) :
    (s.setBonded flag).storedFlag = s.storedFlag := rfl

@[simp] theorem bondInfo_storeBond : (s.storeBond answers).bondInfo = s.bondInfo := by
  unfold Ble.storeBond
  split <;> rfl

theorem storedFlag_storeBond (stored : answers.kvSet = 0) :
    (s.storeBond answers).storedFlag = s.bondInfo.isBonded := by
  rw [Ble.storeBond, if_pos stored]
  exact isBonded_ofBytes_bytes s.bondInfo

theorem storeBond_refused (refused : answers.kvSet ≠ 0) : s.storeBond answers = s :=
  if_neg refused

section Updates

variable (agrees : s.Agrees)
include agrees

theorem cleared_agrees_iff : false = s.storedFlag ↔ s.bondInfo.isBonded = false := by
  have before : s.bondInfo.isBonded = s.storedFlag := agrees
  rw [← before, eq_comm]

theorem agrees_save_iff (remoteAddr : DevAddr) :
    (bondInfoSave answers remoteAddr s).2.Agrees ↔ Keeps s (.save answers remoteAddr) := by
  by_cases stored : answers.kvSet = 0
  · have flag : Ble.storedFlag ({ s with bondInfo := ⟨true, remoteAddr⟩ }.storeBond answers) = true :=
      storedFlag_storeBond stored
    rw [bondInfoSave, if_neg (not_not_intro stored), Keeps, if_pos stored]
    by_cases added : answers.whiteListAdd = 0
    · simp [added, Ble.Agrees, flag]
    · simp [added, Ble.Agrees, flag]
  · -- the record before stays, with the flag that was in memory
    rw [bondInfoSave, if_pos stored, storeBond_refused stored, Keeps, if_neg stored]
    exact cleared_agrees_iff agrees

theorem agrees_remove_iff : (bondInfoRemove answers s).2.Agrees ↔ Keeps s (.remove answers) := by
  unfold bondInfoRemove Keeps
  by_cases unpaired : answers.devUnpair = 0
  · by_cases removed : answers.whiteListRemove = 0
    · by_cases stored : answers.kvSet = 0
      · have flag : Ble.storedFlag ((s.setBonded false).storeBond answers) = false :=
          storedFlag_storeBond stored
        simp [unpaired, removed, stored, Ble.Agrees, flag]
      have cleared : (s.setBonded false).Agrees ↔ s.bondInfo.isBonded = false :=
        cleared_agrees_iff agrees
      rw [storeBond_refused stored]
      simp [unpaired, removed, stored, cleared]
    · simp [unpaired, removed, agrees]
  · simp [unpaired, agrees]

theorem agrees_perform_iff {update : BondUpdate} {returned : Bool} {s' : Ble}
    (ok : update.perform s = .ok (returned, s')) : s'.Agrees ↔ Keeps s update := by
  cases update with
  | save answers remoteAddr =>
    obtain ⟨-, rfl⟩ := Prod.mk.inj (Except.ok.inj ok)
    exact agrees_save_iff agrees remoteAddr
  | remove answers =>
    obtain ⟨-, rfl⟩ := Prod.mk.inj (Except.ok.inj ok)
    exact agrees_remove_iff agrees

end Updates

theorem perform_returns (s : Ble) (update : BondUpdate) :
    ∃ returned s', update.perform s = .ok (returned, s') := by
  cases update with
  | save answers remoteAddr => exact ⟨_, _, rfl⟩
  | remove answers => exact ⟨_, _, rfl⟩

/-- **Which failures break the agreement**: from a state in agreement, flag and record agree after
each save and remove exactly when each of them has one of the outcomes of `Keeps`. -/
theorem agreement_iff (s : Ble) (agrees : s.Agrees) (updates : List BondUpdate) :
    Upheld BondUpdate.perform Ble.Agrees s updates ↔ Guarded BondUpdate.perform Keeps s updates := by
  apply upheld_iff_guarded Ble.Agrees (fun _ agrees => agrees) _ _ updates s agrees
  · intro s update agrees keeps
    obtain ⟨returned, s', ok⟩ := perform_returns s update
    exact ⟨returned, s', ok, (agrees_perform_iff agrees ok).mpr keeps⟩
  · intro s update returned s' agrees ok right
    exact (agrees_perform_iff agrees ok).mp right

def unbonded : Ble := ⟨.idle, .advInd, -1, .zero, ⟨false, .zero⟩, none, none, none⟩

def whiteListFull : Answers := { Answers.success with whiteListAdd := -1 }

theorem agreement_iff_bonded :
    unbonded.Agrees ∧
      Upheld BondUpdate.perform Ble.Agrees unbonded [.save .success .zero, .remove .success] := by
  refine ⟨rfl, (agreement_iff unbonded rfl [.save .success .zero, .remove .success]).mpr ?_⟩
  refine ⟨rfl, fun returned s' ok => ⟨?_, fun _ _ _ => trivial⟩⟩
  intro unpaired removed refused
  exact absurd rfl refused

/-- **A white list that is full** leaves a bond in the store that is not in memory. -/
theorem refused_peer_stored :
    unbonded.Agrees ∧ (bondInfoSave whiteListFull .zero unbonded).1 = false ∧
      (bondInfoSave whiteListFull .zero unbonded).2.bondInfo.isBonded = false ∧
      (bondInfoSave whiteListFull .zero unbonded).2.storedFlag = true := by
  decide

end Phy6212.Gap
