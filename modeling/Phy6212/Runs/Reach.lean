import Mathlib.Tactic.Basic

/-!
# Reachable states

The states that a machine reaches by guarded actions, and their invariants (`Reaches.invariant`).
-/

namespace Runs

universe u v w

variable {σ : Type u} {α : Type v} {ε : Type w}

/-- A run from one state to another in which every action meets the guard in the
state in which it is performed. -/
inductive Reaches (step : σ → α → Except ε σ) (guard : σ → α → Prop) (start : σ) : σ → Prop where
  | refl : Reaches step guard start start
  | tail {s s' : σ} {a : α} (run : Reaches step guard start s) (allowed : guard s a)
      (ok : step s a = .ok s') : Reaches step guard start s'

variable {step : σ → α → Except ε σ} {guard : σ → α → Prop} {start s : σ}

theorem Reaches.trans {s' : σ} (first : Reaches step guard start s)
    (second : Reaches step guard s s') : Reaches step guard start s' := by
  induction second with
  | refl => exact first
  | tail run allowed ok reached => exact reached.tail allowed ok

theorem Reaches.invariant {holds : σ → Prop} (run : Reaches step guard start s)
    (initially : holds start)
    (keeps : ∀ s a s', holds s → guard s a → step s a = .ok s' → holds s') : holds s := by
  induction run with
  | refl => exact initially
  | tail run allowed ok held => exact keeps _ _ _ held allowed ok

theorem reaches_foldlM {as : List α} (allowed : ∀ a ∈ as, ∀ s, guard s a)
    (ok : as.foldlM step start = .ok s) : Reaches step guard start s := by
  induction as generalizing start with
  | nil =>
    cases ok
    exact .refl
  | cons a as reached =>
    rw [List.foldlM_cons] at ok
    cases first : step start a with
    | error e => simp [first, bind, Except.bind] at ok
    | ok next =>
      rw [first] at ok
      have rest := reached (fun a' member => allowed a' (List.mem_cons_of_mem _ member)) ok
      exact (Reaches.tail .refl (allowed a List.mem_cons_self start) first).trans rest

theorem ok_of_toOption {result : Except ε σ} (found : result.toOption = some s) :
    result = .ok s := by
  cases result with
  | error e => cases found
  | ok s' =>
    cases found
    rfl

/-- An action that fails when it does not meet the guard. -/
def checked (step : σ → α → Except ε σ) (guard : σ → α → Prop) [∀ s a, Decidable (guard s a)]
    (s : σ) (a : α) : Option σ :=
  if guard s a then (step s a).toOption else none

theorem reaches_checked [∀ s a, Decidable (guard s a)] {as : List α}
    (ok : as.foldlM (checked step guard) start = some s) : Reaches step guard start s := by
  induction as generalizing start with
  | nil =>
    cases ok
    exact .refl
  | cons a as reached =>
    obtain ⟨next, first, rest⟩ := Option.bind_eq_some_iff.mp ok
    unfold checked at first
    split at first
    · next allowed =>
      cases performed : step start a with
      | error e => simp [performed, Except.toOption] at first
      | ok result =>
        simp only [performed, Except.toOption, Option.some.injEq] at first
        subst first
        exact (Reaches.tail .refl allowed performed).trans (reached rest)
    · cases first

/-- Every action of a sequence that succeeds has the property in the state in which it is
performed. -/
def Along (step : σ → α → Except ε σ) (holds : σ → α → Prop) : σ → List α → Prop
  | _, [] => True
  | s, a :: as => ∀ s', step s a = .ok s' → holds s a ∧ Along step holds s' as

/-- **Two properties along a run**: they agree when they agree on each action under an
invariant that the actions with the property keep. -/
theorem along_iff {holds holds' : σ → α → Prop} (invariant : σ → Prop)
    (same : ∀ s a s', invariant s → step s a = .ok s' → (holds s a ↔ holds' s a))
    (keeps : ∀ s a s', invariant s → holds' s a → step s a = .ok s' → invariant s') :
    ∀ (as : List α) (s : σ), invariant s → (Along step holds s as ↔ Along step holds' s as) := by
  intro as
  induction as with
  | nil =>
    intro s _
    exact Iff.rfl
  | cons a as ih =>
    intro s start
    constructor
    · intro along s' ok
      obtain ⟨first, rest⟩ := along s' ok
      have first' := (same s a s' start ok).mp first
      exact ⟨first', (ih s' (keeps s a s' start first' ok)).mp rest⟩
    · intro along s' ok
      obtain ⟨first', rest⟩ := along s' ok
      exact ⟨(same s a s' start ok).mpr first', (ih s' (keeps s a s' start first' ok)).mpr rest⟩

theorem Along.action {holds : σ → α → Prop} {before rest : List α} {a : α} {s t t' : σ}
    (along : Along step holds s (before ++ a :: rest)) (ran : before.foldlM step s = .ok t)
    (ok : step t a = .ok t') : holds t a := by
  induction before generalizing s with
  | nil =>
    cases ran
    exact (along t' ok).1
  | cons first before ih =>
    rw [List.foldlM_cons] at ran
    cases result : step s first with
    | error e => simp [result, bind, Except.bind] at ran
    | ok next =>
      rw [result] at ran
      exact ih (along next result).2 ran

end Runs
