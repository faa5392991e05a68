import Mathlib.Data.List.Infix

/-!
# Sending through the UART service

`uart_server_send` splits its data into notifications of at most MTU - 3 bytes and waits when the
stack has no memory.
-/

namespace Phy6212.Ble

open List

/-- The argument `cb`: `NULL`, or a structure without or with an `end` function. -/
inductive SendCb where
  | null
  | noEnd
  | withEnd
  deriving DecidableEq, Repr

def enomem : Int := 12

/-- How a call ends: its result, the payloads that were notified, the arguments of the calls of
`cb->end`, and whether it called through a `NULL` pointer. -/
structure Sending where
  ret : Int
  sent : List (List UInt8)
  ends : List Int := []
  fault : Bool := false
  deriving DecidableEq, Repr

/-- `mtu - 3` is compared with `count` as a `uint32_t` and stored as a `uint16_t`. -/
def sendCount (mtu count : Nat) : Nat :=
  (if (mtu + 4294967293) % 4294967296 < count then mtu + 65533 else count) % 65536

/-- The exits that check `cb` before they call `cb->end`. -/
def endChecked (cb : SendCb) (ret : Int) (sent : List (List UInt8)) : Sending :=
  ⟨ret, sent, if cb = .withEnd then [ret] else [], false⟩

/-- The loop, with the results of the notifications in the order of the calls; `none` when it runs
longer than `fuel`. -/
def sendLoop (mtu : Nat) (cb : SendCb) (results : Nat → Int) :
    Nat → List UInt8 → Nat → Nat → List (List UInt8) → Option Sending
  | 0, _, _, _, _ => none
  | fuel + 1, data, calls, waitTimer, sent =>
    if data = [] then some (endChecked cb 0 sent)
    else
      let count := sendCount mtu data.length
      let ret := results calls
      if ret = -enomem then
        let waitTimer := (waitTimer + 1) % 65536
        if 100 ≤ waitTimer then
          some (if cb = .withEnd then ⟨-1, sent, [-1], false⟩ else ⟨-1, sent, [], true⟩)
        else sendLoop mtu cb results fuel data (calls + 1) waitTimer sent
      else if ret ≠ 0 then some (endChecked cb ret sent)
      else sendLoop mtu cb results fuel (data.drop count) (calls + 1) waitTimer
        (sent ++ [data.take count])

/-- What a caller expects of a call that has ended. -/
structure Sending.Right (mtu : Nat) (cb : SendCb) (data : List UInt8) (s : Sending) : Prop where
  safe : s.fault = false
  sized : ∀ payload ∈ s.sent, 1 ≤ payload.length ∧ payload.length ≤ mtu - 3
  all_sent : s.ret = 0 → s.sent.flatten = data
  part_sent : s.ret ≠ 0 → s.sent.flatten <+: data ∧ s.sent.flatten ≠ data
  ended : s.ends.length = if cb = .withEnd then 1 else 0

/-- The call ends, and as expected. -/
def SendsRight (mtu : Nat) (cb : SendCb) (results : Nat → Int) (data : List UInt8) : Prop :=
  ∃ fuel s, sendLoop mtu cb results fuel data 0 0 [] = some s ∧ s.Right mtu cb data

def waits (results : Nat → Int) (calls : Nat) : Nat :=
  (range calls).countP fun k => results k = -enomem

theorem waits_succ (results : Nat → Int) (calls : Nat) : waits results (calls + 1) =
    waits results calls + if results calls = -enomem then 1 else 0 := by
  simp [waits, range_succ, countP_append, countP_singleton]

theorem sendCount_bounds {mtu count : Nat} (large : 4 ≤ mtu) (word : mtu < 65536)
    (more : 0 < count) : 1 ≤ sendCount mtu count ∧ sendCount mtu count ≤ mtu - 3 ∧
      sendCount mtu count ≤ count := by
  unfold sendCount
  split <;> omega

theorem endChecked_right {mtu : Nat} {cb : SendCb} {data rest : List UInt8} {ret : Int}
    {sent : List (List UInt8)} (whole : sent.flatten ++ rest = data)
    (sized : ∀ payload ∈ sent, 1 ≤ payload.length ∧ payload.length ≤ mtu - 3)
    (result : ret = 0 ↔ rest = []) : (endChecked cb ret sent).Right mtu cb data where
  safe := rfl
  sized := sized
  all_sent done := by
    rw [← whole, result.mp done, append_nil]
    rfl
  part_sent failed := by
    refine ⟨⟨rest, whole⟩, fun same => failed (result.mpr ?_)⟩
    rw [← whole] at same
    exact self_eq_append_right.mp same
  ended := by
    unfold endChecked
    split <;> rfl

/-- From every state of the loop: a round sends a byte or uses up one of the waits. -/
theorem sendLoop_right {mtu : Nat} {cb : SendCb} {results : Nat → Int} {whole : List UInt8}
    (large : 4 ≤ mtu) (word : mtu < 65536)
    (patient : cb = .withEnd ∨ ∀ calls, waits results calls < 100) (fuel : Nat)
    (data : List UInt8) (calls waitTimer : Nat) (sent : List (List UInt8))
    (enough : data.length + (100 - waitTimer) < fuel) (waited : waitTimer = waits results calls)
    (early : waitTimer < 100) (split : sent.flatten ++ data = whole)
    (sized : ∀ payload ∈ sent, 1 ≤ payload.length ∧ payload.length ≤ mtu - 3) :
    ∃ s, sendLoop mtu cb results fuel data calls waitTimer sent = some s ∧
      s.Right mtu cb whole := by
  induction fuel generalizing data calls waitTimer sent with
  | zero => omega
  | succ fuel ih =>
    unfold sendLoop
    have count := waits_succ results calls
    by_cases done : data = []
    · rw [if_pos done]
      exact ⟨_, rfl, endChecked_right split sized (by simp [done])⟩
    rw [if_neg done]
    have positive := length_pos_iff.mpr done
    by_cases full : results calls = -enomem
    · rw [if_pos full, Nat.mod_eq_of_lt (by omega)]
      rw [if_pos full] at count
      by_cases late : 100 ≤ waitTimer + 1
      · rw [if_pos late]
        obtain given | few := patient
        · rw [if_pos given]
          refine ⟨_, rfl, ?_⟩
          have right := @endChecked_right mtu cb _ _ (-1) _ split sized (by simp [done])
          rwa [endChecked, if_pos given] at right
        · have := few (calls + 1)
          omega
      · rw [if_neg late]
        exact ih data (calls + 1) (waitTimer + 1) sent (by omega) (by omega) (by omega) split sized
    · rw [if_neg full]
      rw [if_neg full] at count
      by_cases failed : results calls = 0
      · rw [if_neg (not_not_intro failed)]
        obtain ⟨some, most, inside⟩ := sendCount_bounds large word positive
        refine ih _ (calls + 1) waitTimer _ ?_ (by omega) early ?_ ?_
        · rw [length_drop]
          omega
        · simp [← split]
        intro payload found
        obtain old | new := mem_append.mp found
        · exact sized payload old
        · rw [mem_singleton.mp new, length_take, Nat.min_eq_left inside]
          exact ⟨some, most⟩
      · rw [if_pos failed]
        exact ⟨_, rfl, endChecked_right split sized (by simp [done, failed])⟩

theorem sendLoop_full (fuel calls waitTimer : Nat) (s : Sending)
    (run : sendLoop 23 .null (fun _ => -12) fuel [1] calls waitTimer [] = some s) :
    s.fault = true := by
  induction fuel generalizing calls waitTimer with
  | zero => cases run
  | succ fuel ih =>
    unfold sendLoop at run
    by_cases late : 100 ≤ (waitTimer + 1) % 65536
    · simp [enomem, late] at run
      rw [← run]
    · exact ih _ _ (by simpa [enomem, late] using run)

theorem sendLoop_empty (fuel calls : Nat) (sent : List (List UInt8)) :
    sendLoop 3 .withEnd (fun _ => 0) fuel [1] calls 0 sent = none := by
  induction fuel generalizing calls sent with
  | zero => rfl
  | succ fuel ih =>
    have none : sendCount 3 1 = 0 := by decide
    unfold sendLoop
    simpa [enomem, none] using ih (calls + 1) (sent ++ [[]])

end Phy6212.Ble
