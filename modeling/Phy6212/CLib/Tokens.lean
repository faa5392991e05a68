import Mathlib.Data.List.Basic
import Mathlib.Data.List.TakeWhile

/-!
# Tokens of a string

`strtok_r` returns the next token and the place behind it, and `strsplit` collects a number of them.
-/

namespace CLib

open List

universe u

variable {α : Type u} [DecidableEq α]

/-- `strtok_r`: the token, and what is kept for the next call. -/
def strtokR (delim : List α) (str saveptr : Option (List α)) : Option (List α) × Option (List α) :=
  match str.or saveptr with
  | none => (none, none)
  | some str =>
    let str := str.dropWhile (· ∈ delim)
    if str = [] then (none, none)
    else
      match str.dropWhile (· ∉ delim) with
      | [] => (some (str.takeWhile (· ∉ delim)), none)
      | _ :: rest => (some (str.takeWhile (· ∉ delim)), some rest)

def strsplitLoop (delim : List α) : Nat → Option (List α) × Option (List α) → List (List α)
  | room + 1, (some next, saveptr) => next :: strsplitLoop delim room (strtokR delim none saveptr)
  | _, _ => []

def strsplit (count : Nat) (data delim : List α) : List (List α) :=
  strsplitLoop delim count (strtokR delim (some data) none)

/-- The fields between delimiters that are not empty. -/
def tokens (delim text : List α) : List (List α) :=
  (text.splitOnP (· ∈ delim)).filter (· ≠ [])

variable {delim : List α}

theorem tokens_cons_of_mem {c : α} (is_delim : c ∈ delim) (text : List α) :
    tokens delim (c :: text) = tokens delim text := by
  simp [tokens, splitOnP_cons_eq_if_modifyHead, is_delim]

theorem tokens_dropWhile (text : List α) :
    tokens delim (text.dropWhile (· ∈ delim)) = tokens delim text := by
  induction text with
  | nil => rfl
  | cons c text ih =>
    by_cases is_delim : c ∈ delim
    · rw [dropWhile_cons_of_pos (by simpa using is_delim), ih, tokens_cons_of_mem is_delim]
    · rw [dropWhile_cons_of_neg (by simpa using is_delim)]

theorem tokens_of_forall {text : List α} (nonempty : text ≠ []) (plain : ∀ c ∈ text, c ∉ delim) :
    tokens delim text = [text] := by
  rw [tokens, splitOnP_eq_singleton (by simpa using plain)]
  simpa using nonempty

theorem tokens_append {word : List α} (nonempty : word ≠ []) (plain : ∀ c ∈ word, c ∉ delim) {c : α}
    (is_delim : c ∈ delim) (rest : List α) :
    tokens delim (word ++ c :: rest) = word :: tokens delim rest := by
  rw [tokens, splitOnP_append_cons_of_forall_mem (by simpa using plain) c (by simpa using is_delim)]
  simp [tokens, nonempty]

theorem strtokR_cases (delim : List α) {str saveptr : Option (List α)} {text : List α}
    (here : str.or saveptr = some text) :
    tokens delim text = [] ∧ strtokR delim str saveptr = (none, none) ∨
    ∃ word kept, strtokR delim str saveptr = (some word, kept) ∧
      tokens delim text = word :: kept.elim [] (tokens delim) := by
  rw [← tokens_dropWhile]
  have first : ∀ c ∈ (text.dropWhile (· ∈ delim)).head?, c ∉ delim := by
    intro c at_front
    have stopped := head?_dropWhile_not (fun c => decide (c ∈ delim)) text
    rw [at_front] at stopped
    simpa using stopped
  unfold strtokR
  rw [here]
  dsimp only
  generalize text.dropWhile _ = rest at first ⊢
  by_cases empty : rest = []
  · exact .inl ⟨by rw [empty]; rfl, if_pos empty⟩
  refine .inr ⟨rest.takeWhile (· ∉ delim), ?_⟩
  have nonempty : rest.takeWhile (· ∉ delim) ≠ [] := by
    cases rest with
    | nil => exact absurd rfl empty
    | cons c rest =>
      rw [takeWhile_cons_of_pos (by simpa using first c rfl)]
      simp
  have plain : ∀ c ∈ rest.takeWhile (· ∉ delim), c ∉ delim := by
    intro c member
    simpa using mem_takeWhile_imp member
  have parts : rest.takeWhile _ ++ rest.dropWhile (· ∉ delim) = rest :=
    takeWhile_append_dropWhile
  rw [if_neg empty]
  cases behind : rest.dropWhile _ with
  | nil =>
    rw [behind, append_nil] at parts
    refine ⟨none, rfl, ?_⟩
    calc tokens delim rest
      _ = tokens delim _ := congrArg _ parts.symm
      _ = [rest.takeWhile _] := tokens_of_forall nonempty plain
  | cons c after =>
    rw [behind] at parts
    have is_delim : c ∈ delim := by
      have stopped := head?_dropWhile_not (fun c => decide (c ∉ delim)) rest
      rw [behind] at stopped
      simpa using stopped
    refine ⟨some after, rfl, ?_⟩
    calc tokens delim rest
      _ = tokens delim _ := congrArg _ parts.symm
      _ = rest.takeWhile _ :: tokens delim after :=
          tokens_append nonempty plain is_delim after

theorem strsplitLoop_eq (delim : List α) (room : Nat) {str saveptr : Option (List α)} :
    strsplitLoop delim room (strtokR delim str saveptr) =
      ((str.or saveptr).elim [] (tokens delim)).take room := by
  induction room generalizing str saveptr with
  | zero => simp [strsplitLoop]
  | succ room ih =>
    cases here : str.or saveptr with
    | none => simp [strtokR, here, strsplitLoop]
    | some text =>
      rcases strtokR_cases delim here with ⟨none_left, result⟩ | ⟨word, kept, result, split⟩
      · rw [result]
        simp [strsplitLoop, none_left]
      · rw [result, strsplitLoop, ih, Option.elim_some, split, take_succ_cons]
        rfl

/-- **The tokens of `strsplit`** are the first of the fields that are not empty. -/
theorem strsplit_eq (count : Nat) (data delim : List α) :
    strsplit count data delim = (tokens delim data).take count :=
  strsplitLoop_eq delim count

end CLib
