import Mathlib.Tactic.Basic

/-!
# Traces

A trace grows at its end. What stands before a note of the longer trace is either the whole trace so
far or what stood before that note already.
-/

namespace Runs

open List

universe u

variable {α : Type u}

theorem append_singleton_split {trace before after : List α} {n m : α}
    (split : trace ++ [n] = before ++ m :: after) :
    (trace = before ∧ n = m ∧ after = []) ∨
      ∃ rest, trace = before ++ m :: rest ∧ after = rest ++ [n] := by
  rcases eq_nil_or_concat after with rfl | ⟨rest, last, rfl⟩
  · obtain ⟨same, last⟩ := append_inj' split rfl
    exact .inl ⟨same, head_eq_of_cons_eq last, rfl⟩
  rw [concat_eq_append] at split ⊢
  rw [← cons_append, ← append_assoc] at split
  obtain ⟨same, end_⟩ := append_inj' split rfl
  rw [head_eq_of_cons_eq end_]
  exact .inr ⟨rest, same, rfl⟩

theorem append_singleton_eq {trace before after : List α} {n m : α}
    (split : trace ++ [n] = before ++ m :: after) :
    (trace = before ∧ n = m) ∨ ∃ rest, trace = before ++ m :: rest := by
  rcases append_singleton_split split with ⟨same, last, -⟩ | ⟨rest, same, -⟩
  · exact .inl ⟨same, last⟩
  · exact .inr ⟨rest, same⟩

theorem append_induction {P : List α → Prop} {notes : List α} {trace : List α} (start : P trace)
    (keeps : ∀ trace, ∀ n ∈ notes, P trace → P (trace ++ [n])) : P (trace ++ notes) := by
  induction notes generalizing trace with
  | nil => rwa [append_nil]
  | cons n notes ih =>
    rw [append_cons]
    exact ih (keeps _ n mem_cons_self start)
      fun trace m member => keeps trace m (mem_cons_of_mem _ member)

end Runs
