import Phy6212.Runs.Reach

/-!
# Programs that may stop

A program that returns `Except` meets a postcondition when its result has it or it stops for a
reason that is not bad.
-/

namespace Runs

universe u v w

variable {σ : Type u} {α β : Type v} {ε : Type w}

/-- The result has the postcondition, or the program stops for no bad reason. -/
def Meets (bad : ε → Prop) (post : α → Prop) : Except ε α → Prop
  | .ok a => post a
  | .error e => ¬ bad e

variable {bad : ε → Prop}

theorem Meets.bind {program : Except ε α} {next : α → Except ε β} {mid : α → Prop}
    {post : β → Prop} (first : Meets bad mid program)
    (second : ∀ a, mid a → Meets bad post (next a)) : Meets bad post (program >>= next) := by
  cases program with
  | error e => exact first
  | ok a => exact second a first

theorem Meets.mono {program : Except ε α} {post weaker : α → Prop}
    (meets : Meets bad post program) (implies : ∀ a, post a → weaker a) :
    Meets bad weaker program := by
  cases program with
  | error e => exact meets
  | ok a => exact implies a meets

theorem Meets.returns {program : Except ε α} {post : α → Prop} (meets : Meets bad post program) :
    Meets bad (fun a => post a ∧ program = .ok a) program := by
  cases program with
  | error e => exact meets
  | ok a => exact ⟨meets, rfl⟩

theorem Meets.and {program : Except ε α} {post post' : α → Prop} (meets : Meets bad post program)
    (meets' : Meets bad post' program) : Meets bad (fun a => post a ∧ post' a) program := by
  cases program with
  | error e => exact meets
  | ok a => exact ⟨meets, meets'⟩

abbrev Leaves (post : α → Prop) (program : Except ε α) : Prop :=
  Meets (fun _ => False) post program

theorem leaves_of_ok {program : Except ε α} {post : α → Prop}
    (returns : ∀ a, program = .ok a → post a) : Leaves post program := by
  cases program with
  | error e => exact id
  | ok a => exact returns a rfl

theorem leaves_self (program : Except ε α) : Leaves (fun a => program = .ok a) program :=
  leaves_of_ok fun _ returned => returned

theorem Meets.ok {program : Except ε α} {post : α → Prop} (meets : Meets bad post program)
    {a : α} (returned : program = .ok a) : post a := by
  rw [returned] at meets
  exact meets

theorem Reaches.meets {γ : Type v} {step : σ → γ → Except ε σ} {guard : σ → γ → Prop}
    {start s : σ} {inv : σ → Prop} (run : Reaches step guard start s) (initially : inv start)
    (keeps : ∀ s a, inv s → guard s a → Meets bad inv (step s a)) :
    inv s ∧ ∀ a e, guard s a → step s a = .error e → ¬ bad e := by
  have held : inv s := by
    refine run.invariant initially ?_
    intro s a s' held allowed ok
    have met := keeps s a held allowed
    rw [ok] at met
    exact met
  refine ⟨held, ?_⟩
  intro a e allowed failed
  have met := keeps s a held allowed
  rw [failed] at met
  exact met

end Runs
