import Mathlib.Algebra.GroupWithZero.Nat
import Mathlib.Data.List.FinRange
import Mathlib.Data.List.Induction

/-!
# One scan of the key matrix

`kscan_read_keycode` reads the matrix, updates every key for itself (`kscanReadKeycode_keys`) and
collects the keys that are down in an array of six.
-/

namespace Phy6212.Keyscan

open Function List

inductive KeyState where
  | release
  | down
  | hold
  | timeout
  deriving DecidableEq, Repr

structure KeyDef where
  isChanged : Bool
  code : Nat
  state : KeyState
  holdTimeMs : Nat
  deriving DecidableEq, Repr

abbrev Pos := Fin 4 × Fin 4

scoped instance neZero_four : NeZero 4 := Nat.instNeZeroSucc

scoped instance neZero_six : NeZero 6 := Nat.instNeZeroSucc

/-- A reading of the matrix: the keys that read as down. -/
abbrev Matrix := Pos → Bool

/-- The readings in which exactly the given keys are down. -/
def reading (keys : List Pos) : Matrix := fun pos => decide (pos ∈ keys)

def intervalTime : Nat := 50

def holdTime : Nat := 3000

def KeyDef.press (key : KeyDef) : KeyDef :=
  match key.state with
  | .release => { key with state := .down, holdTimeMs := 0 }
  | .down =>
    let key := { key with holdTimeMs := key.holdTimeMs + intervalTime }
    if key.holdTimeMs > holdTime then { key with state := .hold } else key
  | .hold => key
  | .timeout => key

def KeyDef.lift (key : KeyDef) : KeyDef :=
  match key.state with
  | .release => key
  | .down => { key with state := .release }
  | .hold => { key with state := .release }
  | .timeout => key

def scanCode (pos : Pos) : Nat := pos.2 * 4 + pos.1 + 1

def nextKey (down : Bool) (pos : Pos) (key : KeyDef) : KeyDef :=
  let coded := { key with code := scanCode pos }
  let next := if down then coded.press else coded.lift
  { next with isChanged := next.state ≠ key.state }

structure Scanner where
  isHasChanged : Bool
  keys : Pos → KeyDef
  keysPressed : Fin 6 → Option Pos

def positions : List Pos :=
  (finRange 4).flatMap fun c => (finRange 4).map fun r => (c, r)

theorem mem_positions (pos : Pos) : pos ∈ positions := by
  simp [positions]

def scanKey (matrix : Matrix) (st : Fin 6 × Scanner) (pos : Pos) : Fin 6 × Scanner :=
  let (keyCnt, s) := st
  let key := nextKey (matrix pos) pos (s.keys pos)
  let s := { s with
    isHasChanged := s.isHasChanged || key.isChanged
    keys := update s.keys pos key }
  if matrix pos then
    (keyCnt + 1, { s with keysPressed := update s.keysPressed keyCnt (some pos) })
  else (keyCnt, s)

def kscanReadKeycode (matrix : Matrix) (s : Scanner) : Fin 6 × Scanner :=
  positions.foldl (scanKey matrix) (0, { s with isHasChanged := false })

def downKeys (matrix : Matrix) : List Pos := positions.filter matrix

def counted (matrix : Matrix) : List Pos :=
  (downKeys matrix).drop ((downKeys matrix).length / 6 * 6)

section Scans

variable {matrix : Matrix}

theorem scanKey_keys (st : Fin 6 × Scanner) (pos : Pos) :
    (scanKey matrix st pos).2.keys =
      update st.2.keys pos (nextKey (matrix pos) pos (st.2.keys pos)) := by
  unfold scanKey
  simp only
  split <;> rfl

theorem foldl_scanKey_keys (pos : Pos) : ∀ (list : List Pos) (st : Fin 6 × Scanner), list.Nodup →
    (list.foldl (scanKey matrix) st).2.keys pos =
      if pos ∈ list then nextKey (matrix pos) pos (st.2.keys pos) else st.2.keys pos
  | [], st, _ => by simp
  | first :: rest, st, distinct => by
    obtain ⟨notLater, distinctRest⟩ := nodup_cons.mp distinct
    rw [foldl_cons, foldl_scanKey_keys pos rest _ distinctRest, scanKey_keys]
    rcases eq_or_ne pos first with rfl | other
    · rw [if_neg notLater, if_pos mem_cons_self, update_self]
    · rw [update_of_ne other]
      exact if_congr (by simp [other]) rfl rfl

variable {pos : Pos} {st : Fin 6 × Scanner} (s : Scanner)

theorem kscanReadKeycode_keys (pos : Pos) :
    (kscanReadKeycode matrix s).2.keys pos = nextKey (matrix pos) pos (s.keys pos) := by
  have distinct : positions.Nodup := by decide
  unfold kscanReadKeycode
  rw [foldl_scanKey_keys pos positions _ distinct, if_pos (mem_positions pos)]

/-- The keys in the array are those behind the last group of six. -/
def Collected (down : List Pos) (st : Fin 6 × Scanner) : Prop :=
  st.1.val = down.length % 6 ∧
    ∀ i : Fin 6, i.val < down.length % 6 →
      st.2.keysPressed i = down[down.length / 6 * 6 + i.val]?

theorem Collected.scanKey_down {down : List Pos} (collected : Collected down st)
    (isDown : matrix pos = true) : Collected (down ++ [pos]) (scanKey matrix st pos) := by
  obtain ⟨count, entries⟩ := collected
  have next : (st.1 + 1).val = (down.length + 1) % 6 := by
    omega
  unfold scanKey
  simp only [isDown, if_true]
  refine ⟨by rw [next, length_append]; rfl, ?_⟩
  intro i less
  rw [length_append, length_singleton] at less ⊢
  have same : (down.length + 1) / 6 = down.length / 6 := by omega
  rw [same]
  show update st.2.keysPressed st.1 _ i = _
  rcases eq_or_ne i st.1 with rfl | other
  · rw [update_self, count, Nat.div_add_mod', getElem?_concat_length]
  · have before : i.val < down.length % 6 := by
      omega
    rw [update_of_ne other, entries i before, getElem?_append_left (by omega)]

theorem Collected.scanKey_up {down : List Pos} (collected : Collected down st)
    (isUp : matrix pos = false) : Collected down (scanKey matrix st pos) := by
  unfold scanKey
  simp only [isUp, Bool.false_eq_true, if_false]
  exact collected

variable (matrix) in
theorem foldl_scanKey_collected (list : List Pos) :
    Collected (list.filter matrix) (list.foldl (scanKey matrix) (0, s)) := by
  induction list using reverseRecOn with
  | nil => exact ⟨rfl, fun i less => absurd less (Nat.not_lt_zero _)⟩
  | append_singleton list pos ih =>
    rw [foldl_concat, filter_append]
    cases reads : matrix pos with
    | true =>
      rw [filter_singleton, reads]
      exact ih.scanKey_down reads
    | false =>
      rw [filter_singleton, reads, cond_false, append_nil]
      exact ih.scanKey_up reads

variable (matrix) in
theorem kscanReadKeycode_counted :
    (kscanReadKeycode matrix s).1.val = (counted matrix).length ∧
      ∀ i : Fin 6, i.val < (counted matrix).length →
        (kscanReadKeycode matrix s).2.keysPressed i = (counted matrix)[i.val]? := by
  obtain ⟨count, entries⟩ := foldl_scanKey_collected matrix { s with isHasChanged := false }
    positions
  have length : (counted matrix).length = (downKeys matrix).length % 6 := by
    unfold counted
    rw [length_drop]
    omega
  rw [length]
  refine ⟨count, fun i less => ?_⟩
  unfold counted
  rw [getElem?_drop]
  exact entries i less

theorem mem_downKeys (pos : Pos) : pos ∈ downKeys matrix ↔ matrix pos = true := by
  simp [downKeys, mem_positions]

theorem mem_of_mem_counted (member : pos ∈ counted matrix) : matrix pos = true :=
  (mem_downKeys pos).mp (mem_of_mem_drop member)

end Scans

end Phy6212.Keyscan
