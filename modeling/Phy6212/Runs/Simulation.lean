import Mathlib.Tactic.Basic

/-!
# Runs of a machine

Where each guarded action keeps a machine related to a specification, a whole run does not fail and
ends in a related state (`run_simulates`, `run_keeps`), also up to refused results (`run_follows`).
-/

namespace Runs

universe u v w x y

variable {σ : Type u} {α : Type v} {ρ : Type w} {ε : Type x} {μ : Type y}

def run (step : σ → α → Except ε (ρ × σ)) : σ → List α → Except ε (List ρ × σ)
  | s, [] => .ok ([], s)
  | s, a :: as =>
    match step s a with
    | .error e => .error e
    | .ok (r, s') =>
      match run step s' as with
      | .error e => .error e
      | .ok (rs, s'') => .ok (r :: rs, s'')

/-- Every action of the sequence meets the guard in the state in which it is
performed. -/
def Guarded (step : σ → α → Except ε (ρ × σ)) (guard : σ → α → Prop) : σ → List α → Prop
  | _, [] => True
  | s, a :: as => guard s a ∧ ∀ r s', step s a = .ok (r, s') → Guarded step guard s' as

/-- The run does not fail, and every state of it is right. -/
def Upheld (step : σ → α → Except ε (ρ × σ)) (right : σ → Prop) : σ → List α → Prop
  | s, [] => right s
  | s, a :: as => right s ∧ ∃ r s', step s a = .ok (r, s') ∧ Upheld step right s' as

/-- The state of the specification after actions with the given results. -/
def track (spec : μ → α → ρ → μ) : μ → List α → List ρ → μ
  | m, a :: as, r :: rs => track spec (spec m a r) as rs
  | m, _, _ => m

variable {step : σ → α → Except ε (ρ × σ)} {guard : σ → α → Prop} {spec : μ → α → ρ → μ}
  {related : σ → μ → Prop}

theorem run_cons {s s' s'' : σ} {a : α} {as : List α} {r : ρ} {rs : List ρ}
    (first : step s a = .ok (r, s')) (rest : run step s' as = .ok (rs, s'')) :
    run step s (a :: as) = .ok (r :: rs, s'') := by
  simp only [run, first, rest]

theorem run_cons_ok {s s'' : σ} {a : α} {as : List α} {rs : List ρ}
    (ok : run step s (a :: as) = .ok (rs, s'')) :
    ∃ r s' rs', step s a = .ok (r, s') ∧ run step s' as = .ok (rs', s'') ∧ rs = r :: rs' := by
  rw [run] at ok
  cases first : step s a with
  | error e => simp [first] at ok
  | ok result =>
    obtain ⟨r, s'⟩ := result
    cases rest : run step s' as with
    | error e => simp [first, rest] at ok
    | ok result =>
      obtain ⟨rs', s₂⟩ := result
      simp only [first, rest] at ok
      obtain ⟨rfl, rfl⟩ := Prod.mk.inj (Except.ok.inj ok)
      exact ⟨r, s', rs', rfl, rest, rfl⟩

/-- **A guarded run does not fail and follows the specification**, when every
guarded action does. -/
theorem run_simulates
    (simulates : ∀ s m a, related s m → guard s a →
      ∃ r s', step s a = .ok (r, s') ∧ related s' (spec m a r)) :
    ∀ (as : List α) (s : σ) (m : μ), related s m → Guarded step guard s as →
      ∃ rs s', run step s as = .ok (rs, s') ∧ rs.length = as.length ∧
        related s' (track spec m as rs)
  | [], s, m, start, _ => ⟨[], s, rfl, rfl, start⟩
  | a :: as, s, m, start, guarded => by
    obtain ⟨r, s', first, next⟩ := simulates s m a start guarded.1
    obtain ⟨rs, s'', rest, length, finish⟩ :=
      run_simulates simulates as s' _ next (guarded.2 r s' first)
    exact ⟨r :: rs, s'', run_cons first rest, by simp [length], finish⟩

theorem guarded_of_forall (all : ∀ s a, guard s a) :
    ∀ (as : List α) (s : σ), Guarded step guard s as
  | [], _ => trivial
  | a :: as, s => ⟨all s a, fun _ s' _ => guarded_of_forall all as s'⟩

theorem run_keeps {invariant : σ → Prop}
    (keeps : ∀ s a, invariant s → guard s a → ∃ r s', step s a = .ok (r, s') ∧ invariant s') :
    ∀ (as : List α) (s : σ), invariant s → Guarded step guard s as →
      ∃ rs s', run step s as = .ok (rs, s') ∧ invariant s'
  | [], s, start, _ => ⟨[], s, rfl, start⟩
  | a :: as, s, start, guarded => by
    obtain ⟨r, s', first, next⟩ := keeps s a start guarded.1
    obtain ⟨rs, s'', rest, finish⟩ := run_keeps keeps as s' next (guarded.2 r s' first)
    exact ⟨r :: rs, s'', run_cons first rest, finish⟩

/-- **A run without refused results follows the specification**, when every guarded
action with an accepted result does. -/
theorem run_follows {accepted : ρ → Prop}
    (follows : ∀ s m a r s', related s m → guard s a → step s a = .ok (r, s') → accepted r →
      related s' (spec m a r)) :
    ∀ (as : List α) (s : σ) (m : μ) (rs : List ρ) (s' : σ), related s m →
      Guarded step guard s as → run step s as = .ok (rs, s') → (∀ r ∈ rs, accepted r) →
      related s' (track spec m as rs)
  | [], s, m, rs, s', start, _, ok, _ => by
    obtain ⟨rfl, rfl⟩ := Prod.mk.inj (Except.ok.inj ok)
    exact start
  | a :: as, s, m, rs, s'', start, guarded, ok, all => by
    obtain ⟨r, s', rs', first, rest, rfl⟩ := run_cons_ok ok
    have next := follows s m a r s' start guarded.1 first (all r List.mem_cons_self)
    exact run_follows follows as s' _ rs' s'' next (guarded.2 r s' first) rest
      fun r' member => all r' (List.mem_cons_of_mem _ member)

def answers (answer : μ → α → ρ) (next : μ → α → μ) : μ → List α → List ρ
  | _, [] => []
  | m, a :: as => answer m a :: answers answer next (next m a) as

/-- **A run gives the answers of a specification exactly when all its actions are guarded**, when
a guarded action does and one without the guard does not. -/
theorem run_answers_iff {answer : μ → α → ρ} {next : μ → α → μ} (related : σ → μ → Prop)
    (simulates : ∀ s m a, related s m → guard s a →
      ∃ s', step s a = .ok (answer m a, s') ∧ related s' (next m a))
    (needed : ∀ s m a s', related s m → step s a = .ok (answer m a, s') → guard s a) :
    ∀ (as : List α) (s : σ) (m : μ), related s m →
      ((∃ s', run step s as = .ok (answers answer next m as, s')) ↔ Guarded step guard s as)
  | [], s, m, _ => iff_of_true ⟨s, rfl⟩ trivial
  | a :: as, s, m, start => by
    constructor
    · rintro ⟨s'', ok⟩
      obtain ⟨r, s', rs', first, rest, same⟩ := run_cons_ok ok
      obtain ⟨rfl, rfl⟩ := List.cons.inj same
      have guarded := needed s m a s' start first
      refine ⟨guarded, fun r₁ s₁ ok₁ => ?_⟩
      obtain ⟨s₂, ok₂, related₂⟩ := simulates s m a start guarded
      obtain ⟨rfl, rfl⟩ := Prod.mk.inj (Except.ok.inj (ok₂.symm.trans ok₁))
      obtain ⟨-, rfl⟩ := Prod.mk.inj (Except.ok.inj (ok₂.symm.trans first))
      exact (run_answers_iff related simulates needed as _ _ related₂).mp ⟨s'', rest⟩
    rintro ⟨guarded, rest⟩
    obtain ⟨s', first, related'⟩ := simulates s m a start guarded
    obtain ⟨s'', ok⟩ := (run_answers_iff related simulates needed as s' _ related').mpr
      (rest _ s' first)
    exact ⟨s'', run_cons first ok⟩

variable {right : σ → Prop} {a : α} {as : List α} {s : σ}

theorem Upheld.first (upheld : Upheld step right s as) : right s := by
  cases as with
  | nil => exact upheld
  | cons a as => exact upheld.1

/-- **A run stays right exactly when all its actions are guarded**, when a guarded action keeps
an invariant under which the state is right, and one without the guard fails or leaves a state
that is not right. -/
theorem upheld_iff_guarded (invariant : σ → Prop) (sound : ∀ s, invariant s → right s)
    (keeps : ∀ s a, invariant s → guard s a → ∃ r s', step s a = .ok (r, s') ∧ invariant s')
    (needed : ∀ s a r s', invariant s → step s a = .ok (r, s') → right s' → guard s a) :
    ∀ (as : List α) (s : σ), invariant s → (Upheld step right s as ↔ Guarded step guard s as)
  | [], s, start => iff_of_true (sound s start) trivial
  | a :: as, s, start => by
    constructor
    · rintro ⟨-, r, s', ok, rest⟩
      have guarded : guard s a := needed s a r s' start ok rest.first
      refine ⟨guarded, fun r₁ s₁ ok₁ => ?_⟩
      obtain ⟨r₂, s₂, ok₂, next⟩ := keeps s a start guarded
      obtain ⟨rfl, rfl⟩ := Prod.mk.inj (Except.ok.inj (ok₁.symm.trans ok))
      obtain ⟨rfl, rfl⟩ := Prod.mk.inj (Except.ok.inj (ok₂.symm.trans ok))
      exact (upheld_iff_guarded invariant sound keeps needed as _ next).mp rest
    rintro ⟨guarded, rest⟩
    obtain ⟨r, s', ok, next⟩ := keeps s a start guarded
    exact ⟨sound s start, r, s', ok,
      (upheld_iff_guarded invariant sound keeps needed as s' next).mpr (rest r s' ok)⟩

end Runs
