import Phy6212.Kv.Image

/-!
# The live entries of a store

`Lives g logs i off e`: entry `e` lives at offset `off` of block `i`. Appending an entry adds one
place (`lives_append`), and removing one takes a place away (`lives_remove`).
-/

namespace Phy6212.Kv

open List Function

def Lives (g : Geometry) (logs : Nat → List Entry) (i off : Nat) (e : Entry) : Prop :=
  i < g.num ∧ e.live = true ∧
    ∃ before after, logs i = before ++ e :: after ∧ logSize before = off

def Maps (g : Geometry) (logs : Nat → List Entry) (key : Key) (value : List UInt8) : Prop :=
  ∃ i off e, Lives g logs i off e ∧ e.key = key ∧ e.value = value

def Unique (g : Geometry) (logs : Nat → List Entry) : Prop :=
  ∀ ⦃i off e i' off' e'⦄, Lives g logs i off e → Lives g logs i' off' e' → e.key = e'.key →
    i = i' ∧ off = off'

theorem split_unique : ∀ {before before' after after' : List Entry} {e e' : Entry},
    before ++ e :: after = before' ++ e' :: after' → logSize before = logSize before' →
      before = before' ∧ e = e' ∧ after = after'
  | [], [], _, _, _, _, equal, _ => by simpa using equal
  | [], x :: _, _, _, _, _, _, sizes => by
    have := x.size_bounds
    simp only [logSize_nil, logSize_cons] at sizes
    omega
  | x :: _, [], _, _, _, _, _, sizes => by
    have := x.size_bounds
    simp only [logSize_nil, logSize_cons] at sizes
    omega
  | x :: before, y :: before', _, _, _, _, equal, sizes => by
    obtain ⟨rfl, tails⟩ := List.cons.inj equal
    simp only [logSize_cons, Nat.add_left_cancel_iff] at sizes
    obtain ⟨rfl, rest⟩ := split_unique tails sizes
    exact ⟨rfl, rest⟩

variable {g : Geometry} {logs : Nat → List Entry} {i j off : Nat} {e x : Entry}

section

variable (lives : Lives g logs i off e)

include lives

theorem Lives.within : i < g.num := lives.1

theorem Lives.live : e.live = true := lives.2.1

theorem Lives.entry_unique {e' : Entry} (lives' : Lives g logs i off e') : e = e' := by
  obtain ⟨_, _, before, after, equal, size⟩ := lives
  obtain ⟨_, _, before', after', equal', size'⟩ := lives'
  exact (split_unique (equal.symm.trans equal') (size.trans size'.symm)).2.1

end

theorem Unique.same {i' off' : Nat} {e' : Entry} (unique : Unique g logs)
    (lives : Lives g logs i off e) (lives' : Lives g logs i' off' e') (key : e.key = e'.key) :
    i = i' ∧ off = off' ∧ e = e' := by
  obtain ⟨rfl, rfl⟩ := unique lives lives' key
  exact ⟨rfl, rfl, lives.entry_unique lives'⟩

theorem Lives.inside (lives : Lives g logs i off e) : off + e.size ≤ logSize (logs i) := by
  obtain ⟨_, _, before, after, equal, rfl⟩ := lives
  rw [equal, logSize_append, logSize_cons]
  omega

theorem lives_update_ne {log : List Entry} (different : j ≠ i) :
    Lives g (update logs i log) j off e ↔ Lives g logs j off e := by
  simp only [Lives, update_of_ne different]

theorem lives_update_nil (within : i < g.num) (none_live : liveLog (logs i) = []) :
    Lives g (update logs i []) j off e ↔ Lives g logs j off e := by
  rcases eq_or_ne j i with rfl | different
  · constructor
    · rintro ⟨_, _, before, after, equal, _⟩
      simp at equal
    · rintro ⟨_, live, before, after, equal, _⟩
      rw [equal, liveLog_split live] at none_live
      simp at none_live
  · exact lives_update_ne different

theorem lives_append (within : i < g.num) (live : x.live = true) :
    Lives g (update logs i (logs i ++ [x])) j off e ↔
      Lives g logs j off e ∨ (j = i ∧ off = logSize (logs i) ∧ e = x) := by
  rcases eq_or_ne j i with rfl | different
  · simp only [Lives, update_self, true_and]
    constructor
    · rintro ⟨_, entryLive, before, after, equal, rfl⟩
      rcases eq_nil_or_concat after with rfl | ⟨init, last, rfl⟩
      · obtain ⟨same, last⟩ := append_inj' equal rfl
        exact .inr ⟨by rw [same], (List.cons.inj last).1.symm⟩
      · rw [concat_eq_append, ← cons_append, ← append_assoc] at equal
        obtain ⟨same, -⟩ := append_inj' equal rfl
        exact .inl ⟨within, entryLive, before, init, same, rfl⟩
    · rintro (⟨_, entryLive, before, after, equal, rfl⟩ | ⟨rfl, rfl⟩)
      · exact ⟨within, entryLive, before, after ++ [x], by rw [equal]; simp, rfl⟩
      · exact ⟨within, live, logs j, [], rfl, rfl⟩
  rw [lives_update_ne different]
  constructor
  · exact .inl
  · rintro (lives | ⟨rfl, -⟩)
    · exact lives
    · exact absurd rfl different

variable {after before : List Entry}

theorem lives_kill (log_eq : logs i = before ++ x :: after) :
    Lives g (update logs i (before ++ x.kill :: after)) j off e ↔
      Lives g logs j off e ∧ ¬ (j = i ∧ off = logSize before) := by
  rcases eq_or_ne j i with rfl | different
  · simp only [Lives, update_self, true_and]
    constructor
    · rintro ⟨within, live, first, rest, equal, rfl⟩
      -- the live entry is not the killed one, so it stands before or behind it
      rcases append_eq_append_iff.mp equal with ⟨middle, rfl, tail⟩ | ⟨middle, rfl, tail⟩
      · cases middle with
        | nil =>
          obtain ⟨rfl, -⟩ := List.cons.inj tail
          exact absurd live (by simp)
        | cons y middle =>
          obtain ⟨rfl, rfl⟩ := List.cons.inj tail
          refine ⟨⟨within, live, before ++ x :: middle, rest, by simp [log_eq], by simp⟩, ?_⟩
          have := x.size_bounds
          simp only [logSize_append, logSize_cons, Entry.kill_size]
          omega
      cases middle with
      | nil =>
        obtain ⟨rfl, -⟩ := List.cons.inj tail
        exact absurd live (by simp)
      | cons y middle =>
        obtain ⟨rfl, rfl⟩ := List.cons.inj tail
        refine ⟨⟨within, live, first, middle ++ x :: after, by simp [log_eq], rfl⟩, ?_⟩
        have := e.size_bounds
        simp only [logSize_append, logSize_cons]
        omega
    · rintro ⟨⟨within, live, first, rest, equal, rfl⟩, elsewhere⟩
      rw [log_eq] at equal
      rcases append_eq_append_iff.mp equal with ⟨middle, rfl, tail⟩ | ⟨middle, rfl, tail⟩
      · cases middle with
        | nil => simp at elsewhere
        | cons y middle =>
          obtain ⟨rfl, rfl⟩ := List.cons.inj tail
          exact ⟨within, live, before ++ x.kill :: middle, rest, by simp, by simp⟩
      cases middle with
      | nil => simp at elsewhere
      | cons y middle =>
        obtain ⟨rfl, rfl⟩ := List.cons.inj tail
        exact ⟨within, live, first, middle ++ x.kill :: after, by simp, rfl⟩
  · rw [lives_update_ne different]
    simp [different]

theorem lives_remove (within : i < g.num) (live : x.live = true)
    (log_eq : logs i = before ++ x :: after) :
    Lives g (update logs i (removeEntry before x after)) j off e ↔
      Lives g logs j off e ∧ ¬ (j = i ∧ off = logSize before) := by
  have removed : liveLog (removeEntry before x after) = _ := liveLog_removeEntry live
  unfold removeEntry at removed ⊢
  split at removed
  · next many =>
    rw [if_pos many]
    exact lives_kill log_eq
  rename_i few
  -- no entry is left alive, so erasing the block changes nothing more
  have none_live : liveLog (update logs i (before ++ x.kill :: after) i) = [] := by
    rw [update_self, liveLog_append, liveLog_cons_dead after rfl]
    exact removed.symm
  have emptied := @lives_update_nil g _ i j off e within none_live
  rw [update_idem] at emptied
  rw [if_neg few, emptied]
  exact lives_kill log_eq

end Phy6212.Kv
